import Mathlib.Data.List.Basic
import Mathlib.Data.List.TakeWhile
import Glob.Proofs.Expansion

/-!
Brace groups are products. A text with a group expands to every choice of an alternative followed by
every expansion of the rest, in that order. What has been expanded is read again together with the
rest, so it matters that no glyph changes where two parts meet, and that no brace is left over.
-/

namespace Glob

namespace Glyph

/-- Whether a text ends with a backslash that has nothing to escape, where there are escapes. -/
def endsInEscape (escapes : Bool) (chars : List Char) : Bool :=
  escapes && (ofText escapes chars).getLast? == some (plain '\\')

/-- Whether a glyph is read back as it is, whatever follows it. -/
def standsAlone (escapes : Bool) : Glyph → Bool
  | plain c => !(escapes && c == '\\')
  | escaped _ => escapes

/-- No glyph changes when more follows the last one. -/
def Settled (escapes : Bool) (glyphs : List Glyph) : Prop :=
  ∀ glyph ∈ glyphs, glyph.standsAlone escapes = true

variable {escapes : Bool} {glyphs part : List Glyph}

theorem Settled.mono (settled : Settled escapes glyphs) (fewer : part ⊆ glyphs) :
    Settled escapes part :=
  fun glyph present => settled glyph (fewer present)

theorem Settled.append (left : Settled escapes glyphs) (right : Settled escapes part) :
    Settled escapes (glyphs ++ part) := by
  intro glyph present
  rcases List.mem_append.mp present with earlier | later
  · exact left glyph earlier
  · exact right glyph later

theorem settled_plain {c : Char} (unescaping : c ≠ '\\') : Settled escapes [plain c] := by
  intro glyph present
  obtain rfl := List.mem_singleton.mp present
  simp [standsAlone, unescaping]

theorem text_nil : text [] = [] :=
  rfl

theorem text_plain (c : Char) (rest : List Glyph) : text (plain c :: rest) = c :: text rest :=
  rfl

theorem ofText_cons {c : Char} {rest : List Char} (unescaping : c ≠ '\\') :
    ofText escapes (c :: rest) = plain c :: ofText escapes rest := by
  rw [ofText]
  exact fun _ _ same => absurd same unescaping

theorem ofText_text_append (settled : Settled escapes glyphs) (rest : List Char) :
    ofText escapes (text glyphs ++ rest) = glyphs ++ ofText escapes rest := by
  induction glyphs with
  | nil => rfl
  | cons glyph later ih =>
      have own := settled glyph List.mem_cons_self
      have after := ih (settled.mono (List.subset_cons_self glyph later))
      rw [text_cons, List.append_assoc, List.cons_append, ← after]
      cases glyph with
      | escaped c =>
          obtain rfl : escapes = true := own
          rfl
      | plain c =>
          by_cases mark : c = '\\'
          · subst mark
            obtain rfl : escapes = false := by simpa [standsAlone] using own
            cases text later ++ rest <;> rfl
          · rw [chars, List.singleton_append, ofText_cons mark]

theorem ofText_text (settled : Settled escapes glyphs) : ofText escapes (text glyphs) = glyphs := by
  have whole := ofText_text_append settled []
  rw [List.append_nil] at whole
  rw [whole, ofText, List.append_nil]

theorem escapes_of_mem_ofText {chars : List Char} {c : Char}
    (present : escaped c ∈ ofText escapes chars) : escapes = true := by
  fun_induction ofText escapes chars with
  | case1 => cases present
  | case2 _ _ pairs => exact pairs
  | case3 _ _ _ ih => exact ih (by simpa using present)
  | case4 _ _ _ ih => exact ih (by simpa using present)

theorem getLast?_ofText {chars : List Char} (present : plain '\\' ∈ ofText true chars) :
    (ofText true chars).getLast? = some (plain '\\') := by
  fun_induction ofText true chars with
  | case1 => cases present
  | case2 c rest _ ih => simp [List.getLast?_cons, ih (by simpa using present)]
  | case3 c rest single => exact absurd rfl single
  | case4 c rest unpaired ih =>
      rcases List.mem_cons.mp present with same | later
      · cases same
        cases rest with
        | nil => rfl
        | cons next rest => exact (unpaired next rest rfl rfl).elim
      · simp [List.getLast?_cons, ih later]

theorem settled_ofText {chars : List Char} (closed : endsInEscape escapes chars = false) :
    Settled escapes (ofText escapes chars) := by
  intro glyph present
  cases glyph with
  | escaped c => exact escapes_of_mem_ofText present
  | plain c =>
      simp only [standsAlone, Bool.not_eq_true']
      apply Bool.eq_false_iff.mpr
      intro mark
      obtain ⟨rfl, same⟩ := Bool.and_eq_true_iff.mp mark
      obtain rfl : c = '\\' := beq_iff_eq.mp same
      simp [endsInEscape, getLast?_ofText present] at closed

theorem ofText_append {left : List Char} (closed : endsInEscape escapes left = false)
    (right : List Char) :
    ofText escapes (left ++ right) = ofText escapes left ++ ofText escapes right := by
  have whole := ofText_text_append (settled_ofText closed) right
  rwa [text_ofText] at whole

end Glyph

namespace Braces

open Glyph

variable {escapes : Bool} {depth : Nat} {glyph : Glyph} {glyphs left right rest : List Glyph}
  {chars : List Char}

/-- Whether every brace has its partner, where `depth` braces are open before the glyphs. -/
def balances : (depth : Nat) → List Glyph → Bool
  | depth, [] => depth == 0
  | 0, .plain '}' :: _ => false
  | depth, glyph :: rest => balances (depthAfter depth glyph) rest

def enclosesCommas : (depth : Nat) → List Glyph → Bool
  | _, [] => true
  | 0, .plain ',' :: _ => false
  | depth, glyph :: rest => enclosesCommas (depthAfter depth glyph) rest

theorem balances_cons (stays : ¬(depth = 0 ∧ glyph = .plain '}')) :
    balances depth (glyph :: rest) = balances (depthAfter depth glyph) rest := by
  rw [balances]
  intro zero same
  exact stays ⟨zero, same⟩

theorem enclosesCommas_cons (stays : ¬(depth = 0 ∧ glyph = .plain ',')) :
    enclosesCommas depth (glyph :: rest) = enclosesCommas (depthAfter depth glyph) rest := by
  rw [enclosesCommas]
  intro zero same
  exact stays ⟨zero, same⟩

theorem splitGroup?_cons (open_ : ¬(depth = 0 ∧ glyph = .plain '}'))
    (stays : ¬(depth = 0 ∧ glyph = .plain ',')) :
    splitGroup? depth (glyph :: rest) =
      (splitGroup? (depthAfter depth glyph) rest).map fun (found, after) =>
        (extendFirst glyph found, after) := by
  rw [splitGroup?]
  · intro zero same
    exact open_ ⟨zero, same⟩
  · intro zero same
    exact stays ⟨zero, same⟩

theorem depthAfter_succ (stays : ¬(depth = 0 ∧ glyph = .plain '}')) :
    depthAfter (depth + 1) glyph = depthAfter depth glyph + 1 := by
  unfold depthAfter
  split
  · rfl
  · have positive : depth ≠ 0 := fun zero => stays ⟨zero, rfl⟩
    omega
  · rfl

theorem balances_append (flat : .plain '{' ∉ left) :
    balances 0 (left ++ right) = true ↔ .plain '}' ∉ left ∧ balances 0 right = true := by
  induction left with
  | nil => simp
  | cons glyph later ih =>
      rw [List.mem_cons, not_or] at flat
      by_cases closes : glyph = .plain '}'
      · subst closes
        simp [balances]
      · have same : depthAfter 0 glyph = 0 := by
          unfold depthAfter
          split
          · exact absurd rfl flat.1
          · rfl
          · rfl
        rw [List.cons_append, balances_cons (fun both => closes both.2), same, ih flat.2,
          List.mem_cons, not_or]
        simp [Ne.symm closes]

theorem splitGroup?_of_balances (balanced : balances (depth + 1) glyphs = true) :
    ∃ first others after, splitGroup? depth glyphs = some (first :: others, after) ∧
      balances depth first = true ∧ (∀ other ∈ others, balances 0 other = true) ∧
        balances 0 after = true := by
  fun_induction splitGroup? depth glyphs with
  | case1 depth => simp [balances] at balanced
  | case2 rest =>
      rw [balances_cons (by simp)] at balanced
      exact ⟨[], [], rest, rfl, rfl, by simp, balanced⟩
  | case3 rest ih =>
      rw [balances_cons (by simp)] at balanced
      obtain ⟨first, others, after, split, own, each, later⟩ := ih balanced
      refine ⟨[], first :: others, after, by rw [split]; rfl, rfl, ?_, later⟩
      intro other present
      rcases List.mem_cons.mp present with same | further
      · exact same ▸ own
      · exact each other further
  | case4 depth glyph rest closing dividing ih =>
      have stays : ¬(depth = 0 ∧ glyph = .plain '}') := fun both => closing both.1 both.2
      rw [balances_cons (fun both => Nat.succ_ne_zero depth both.1), depthAfter_succ stays]
        at balanced
      obtain ⟨first, others, after, split, own, each, later⟩ := ih balanced
      refine ⟨glyph :: first, others, after, by rw [split]; rfl, ?_, each, later⟩
      rw [balances_cons stays]
      exact own

theorem foldr_extendFirst {first : List Glyph} {others : List (List Glyph)} :
    left.foldr extendFirst (first :: others) = (left ++ first) :: others := by
  induction left with
  | nil => rfl
  | cons glyph later ih =>
      rw [List.foldr_cons, ih]
      rfl

theorem splitGroup?_append (balanced : balances depth left = true)
    (encloses : enclosesCommas depth left = true) :
    splitGroup? depth (left ++ right) = (splitGroup? 0 right).map fun (found, after) =>
      (left.foldr extendFirst found, after) := by
  induction left generalizing depth with
  | nil =>
      obtain rfl : depth = 0 := by simpa [balances] using balanced
      simp
  | cons glyph later ih =>
      have open_ : ¬(depth = 0 ∧ glyph = .plain '}') := by
        intro both
        rw [both.1, both.2] at balanced
        cases balanced
      have stays : ¬(depth = 0 ∧ glyph = .plain ',') := by
        intro both
        rw [both.1, both.2] at encloses
        cases encloses
      rw [balances_cons open_] at balanced
      rw [enclosesCommas_cons stays] at encloses
      rw [List.cons_append, splitGroup?_cons open_ stays, ih balanced encloses, Option.map_map]
      rfl

theorem splitGroup?_joined {alternatives : List (List Glyph)} {after : List Glyph}
    (nonempty : alternatives ≠ [])
    (each : ∀ alternative ∈ alternatives,
      balances 0 alternative = true ∧ enclosesCommas 0 alternative = true) :
    splitGroup? 0 (joined alternatives ++ .plain '}' :: after) = some (alternatives, after) := by
  fun_induction joined alternatives with
  | case1 => exact absurd rfl nonempty
  | case2 last =>
      have own := each last List.mem_cons_self
      rw [splitGroup?_append own.1 own.2, splitGroup?, Option.map_some]
      simp only [foldr_extendFirst, List.append_nil]
  | case3 first others more ih =>
      have own := each first List.mem_cons_self
      have later := ih more fun other present => each other (List.mem_cons_of_mem first present)
      rw [List.append_assoc, List.cons_append, splitGroup?_append own.1 own.2, splitGroup?, later,
        Option.map_some, Option.map_some]
      simp only [foldr_extendFirst, List.append_nil]

theorem settled_joined {alternatives : List (List Glyph)}
    (each : ∀ alternative ∈ alternatives, Settled escapes alternative) :
    Settled escapes (joined alternatives) := by
  fun_induction joined alternatives with
  | case1 => exact fun _ present => by cases present
  | case2 last => exact each last List.mem_cons_self
  | case3 first others _ ih =>
      have later := ih fun other present => each other (List.mem_cons_of_mem first present)
      exact (each first List.mem_cons_self).append ((settled_plain (by decide)).append later)

theorem subset_joined {alternatives : List (List Glyph)} {alternative : List Glyph}
    (member : alternative ∈ alternatives) : alternative ⊆ joined alternatives := by
  fun_induction joined alternatives with
  | case1 => cases member
  | case2 last => simp_all
  | case3 first others _ ih =>
      rcases List.mem_cons.mp member with same | later
      · subst same
        exact List.subset_append_left _ _
      · exact fun glyph present =>
          List.mem_append_right _ (List.mem_cons_of_mem _ (ih later present))

theorem text_joined {alternatives : List (List Glyph)} :
    text (joined alternatives) = [','].intercalate (alternatives.map text) := by
  fun_induction joined alternatives with
  | case1 => rfl
  | case2 last => simp
  | case3 first others more ih =>
      cases others with
      | nil => exact absurd rfl more
      | cons next others =>
          rw [text_append, text_plain, ih]
          simp [List.intercalate_cons_cons]

section

variable {before inside after : List Glyph}

theorem group?_eq_none_of_flat (flat : .plain '{' ∉ ofText escapes chars) :
    group? escapes chars = none := by
  have skipped : (ofText escapes chars).dropWhile (· ≠ .plain '{') = [] := by
    apply List.dropWhile_eq_nil_iff.mpr
    intro glyph present
    apply decide_eq_true
    intro same
    exact flat (same ▸ present)
  rw [group?, skipped]

theorem group?_of_ofText (read : ofText escapes chars = before ++ .plain '{' :: inside)
    (flat : .plain '{' ∉ before) :
    group? escapes chars = (splitGroup? 0 inside).map fun (found, after) =>
      { before := text before, alternatives := found.map text, after := text after } := by
  have skip : ∀ glyph ∈ before, decide (glyph ≠ .plain '{') = true := by
    intro glyph present
    apply decide_eq_true
    intro same
    exact flat (same ▸ present)
  have skipped : (ofText escapes chars).dropWhile (· ≠ .plain '{') = .plain '{' :: inside := by
    rw [read, List.dropWhile_append_of_pos skip]
    rfl
  have kept : (ofText escapes chars).takeWhile (· ≠ .plain '{') = before := by
    rw [read, List.takeWhile_append_of_pos skip, List.takeWhile_cons_of_neg (by simp),
      List.append_nil]
  rw [group?, skipped, kept]

end

theorem group?_text_append (settled : Settled escapes glyphs) (flat : .plain '{' ∉ glyphs)
    (chars : List Char) :
    group? escapes (text glyphs ++ chars) = (group? escapes chars).map fun group =>
      { group with before := text glyphs ++ group.before } := by
  have read := ofText_text_append settled chars
  by_cases opened : .plain '{' ∈ ofText escapes chars
  · obtain ⟨before, inside, split, first⟩ := List.eq_append_cons_of_mem opened
    have earlier : .plain '{' ∉ glyphs ++ before := by
      rw [List.mem_append, not_or]
      exact ⟨flat, first⟩
    rw [split, ← List.append_assoc] at read
    rw [group?_of_ofText read earlier, group?_of_ofText split first, Option.map_map, text_append]
    rfl
  · have neither : .plain '{' ∉ ofText escapes (text glyphs ++ chars) := by
      rw [read, List.mem_append, not_or]
      exact ⟨flat, opened⟩
    rw [group?_eq_none_of_flat neither, group?_eq_none_of_flat opened]
    rfl

theorem expand_text_append (settled : Settled escapes glyphs) (flat : .plain '{' ∉ glyphs)
    (chars : List Char) :
    expand escapes (text glyphs ++ chars) = (expand escapes chars).map (text glyphs ++ ·) := by
  have moved := group?_text_append settled flat
  induction chars using expand_induction escapes with
  | alone chars found =>
      have whole := moved chars
      rw [found] at whole
      rw [expand_of_group_eq_none whole, expand_of_group_eq_none found]
      rfl
  | grouped chars group found ih =>
      have whole := moved chars
      rw [found] at whole
      rw [expand_of_group_eq_some whole, expand_of_group_eq_some found, List.map_flatMap]
      apply List.flatMap_congr
      intro alternative member
      rw [List.map_flatMap]
      apply List.flatMap_congr
      intro inner expanded
      rw [← (ih alternative member).2 inner expanded]
      simp only [List.append_assoc]

theorem exists_group_of_balances (settled : Settled escapes glyphs)
    (balanced : balances 0 glyphs = true) (opened : .plain '{' ∈ glyphs) :
    ∃ (before : List Glyph) (parts : List (List Glyph)) (after : List Glyph),
      group? escapes (text glyphs) = some ⟨text before, parts.map text, text after⟩ ∧
        (.plain '{' ∉ before ∧ .plain '}' ∉ before ∧ Settled escapes before) ∧
        (∀ part ∈ parts, balances 0 part = true ∧ Settled escapes part) ∧
        balances 0 after = true ∧ Settled escapes after := by
  obtain ⟨before, inside, rfl, first⟩ := List.eq_append_cons_of_mem opened
  obtain ⟨unclosed, rest⟩ := (balances_append first).mp balanced
  rw [balances_cons (by simp)] at rest
  obtain ⟨own, others, after, split, balancedOwn, each, later⟩ := splitGroup?_of_balances rest
  have found := group?_of_ofText (ofText_text settled) first
  rw [split] at found
  obtain ⟨_, rfl⟩ := eq_of_splitGroup split
  have settledAfter : Settled escapes after := by
    apply settled.mono
    intro glyph following
    simp [following]
  refine ⟨before, own :: others, after, found, ⟨first, unclosed, settled.mono (by simp)⟩, ?_,
    later, settledAfter⟩
  intro part listed
  constructor
  · rcases List.mem_cons.mp listed with same | further
    · exact same ▸ balancedOwn
    · exact each part further
  · apply settled.mono
    intro glyph present
    simp [subset_joined listed present]

theorem flat_of_mem_expand (settled : Settled escapes glyphs) (balanced : balances 0 glyphs = true)
    {result : List Char} (member : result ∈ expand escapes (text glyphs)) :
    ∃ flat, result = text flat ∧ Settled escapes flat ∧ .plain '{' ∉ flat ∧ .plain '}' ∉ flat := by
  have yields := yields_iff_mem_expand.mpr member
  clear member
  generalize whole : text glyphs = chars at yields
  induction yields generalizing glyphs with
  | alone ungrouped =>
      subst whole
      have unopened : .plain '{' ∉ glyphs := by
        intro opened
        obtain ⟨_, _, _, found, _⟩ := exists_group_of_balances settled balanced opened
        cases ungrouped.symm.trans found
      rw [← List.append_nil glyphs, balances_append unopened] at balanced
      exact ⟨glyphs, rfl, settled, unopened, balanced.1⟩
  | grouped found member _ _ replaced combined =>
      subst whole
      have opened : .plain '{' ∈ glyphs := by
        apply Classical.by_contradiction
        intro unopened
        cases found.symm.trans (group?_eq_none_of_flat ((ofText_text settled).symm ▸ unopened))
      obtain ⟨before, parts, after, same, ⟨first, unclosed, settledBefore⟩, each, later,
        settledAfter⟩ := exists_group_of_balances settled balanced opened
      cases found.symm.trans same
      obtain ⟨part, listed, rfl⟩ := List.mem_map.mp member
      obtain ⟨balancedPart, settledPart⟩ := each part listed
      obtain ⟨flat, rfl, settledFlat, unopened, flatClosed⟩ :=
        replaced settledPart balancedPart rfl
      have settledWhole := (settledBefore.append settledFlat).append settledAfter
      have balancedWhole : balances 0 (before ++ flat ++ after) = true := by
        rw [List.append_assoc, balances_append first, balances_append unopened]
        exact ⟨unclosed, flatClosed, later⟩
      exact combined settledWhole balancedWhole (by simp only [text_append])

theorem group?_of_joined {before : List Char} {alternatives : List (List Char)}
    (nonempty : alternatives ≠ []) (flat : .plain '{' ∉ ofText escapes before)
    (closed : endsInEscape escapes before = false)
    (each : ∀ alternative ∈ alternatives,
      balances 0 (ofText escapes alternative) = true ∧
        enclosesCommas 0 (ofText escapes alternative) = true ∧
        endsInEscape escapes alternative = false) (after : List Char) :
    group? escapes (before ++ '{' :: [','].intercalate alternatives ++ '}' :: after) =
      some ⟨before, alternatives, after⟩ := by
  have same : (alternatives.map (ofText escapes)).map text = alternatives := by
    simp [Function.comp_def, text_ofText]
  have written : before ++ '{' :: [','].intercalate alternatives ++ '}' :: after =
      text (ofText escapes before ++ .plain '{' ::
        (joined (alternatives.map (ofText escapes)) ++ [.plain '}'])) ++ after := by
    simp [text_append, text_plain, text_nil, text_joined, text_ofText, same]
  have within : Settled escapes (joined (alternatives.map (ofText escapes))) := by
    apply settled_joined
    intro part listed
    obtain ⟨alternative, member, rfl⟩ := List.mem_map.mp listed
    exact settled_ofText (each alternative member).2.2
  have settled : Settled escapes (ofText escapes before ++ .plain '{' ::
      (joined (alternatives.map (ofText escapes)) ++ [.plain '}'])) :=
    (settled_ofText closed).append
      ((settled_plain (by decide)).append (within.append (settled_plain (by decide))))
  have read : ofText escapes (before ++ '{' :: [','].intercalate alternatives ++ '}' :: after) =
      ofText escapes before ++ .plain '{' ::
        (joined (alternatives.map (ofText escapes)) ++ .plain '}' :: ofText escapes after) := by
    rw [written, ofText_text_append settled]
    simp
  have split : splitGroup? 0 (joined (alternatives.map (ofText escapes)) ++
      .plain '}' :: ofText escapes after) =
        some (alternatives.map (ofText escapes), ofText escapes after) := by
    apply splitGroup?_joined (by simpa using nonempty)
    intro part listed
    obtain ⟨alternative, member, rfl⟩ := List.mem_map.mp listed
    exact ⟨(each alternative member).1, (each alternative member).2.1⟩
  rw [group?_of_ofText read flat, split, Option.map_some]
  simp only [same, text_ofText]

/-- Expanding a group is a product: of its alternatives, each with its own expansions, and of the
expansions of what follows. -/
theorem expand_eq_product (escapes : Bool) :
    (∀ (before after : List Char) (alternatives : List (List Char)), alternatives ≠ [] →
      .plain '{' ∉ ofText escapes before → endsInEscape escapes before = false →
      (∀ alternative ∈ alternatives,
        balances 0 (ofText escapes alternative) = true ∧
          enclosesCommas 0 (ofText escapes alternative) = true ∧
          endsInEscape escapes alternative = false) →
      expand escapes (before ++ '{' :: [','].intercalate alternatives ++ '}' :: after) =
        alternatives.flatMap fun alternative => (expand escapes alternative).flatMap fun inner =>
          (expand escapes after).map fun rest => before ++ inner ++ rest) ∧
    ∀ chars, .plain '{' ∉ ofText escapes chars → expand escapes chars = [chars] := by
  constructor
  · intro before after alternatives nonempty flat closed each
    have settled := settled_ofText closed
    have group := group?_of_joined nonempty flat closed each after
    rw [expand_of_group_eq_some group]
    apply List.flatMap_congr
    intro alternative member
    apply List.flatMap_congr
    intro inner expanded
    have own := each alternative member
    rw [← text_ofText escapes alternative] at expanded
    obtain ⟨glyphs, rfl, settledInner, unopened, _⟩ :=
      flat_of_mem_expand (settled_ofText own.2.2) own.1 expanded
    have flatBoth : .plain '{' ∉ ofText escapes before ++ glyphs := by
      rw [List.mem_append, not_or]
      exact ⟨flat, unopened⟩
    have moved := expand_text_append (settled.append settledInner) flatBoth after
    rw [text_append, text_ofText] at moved
    exact moved
  · intro chars flat
    exact expand_of_group_eq_none (group?_eq_none_of_flat flat)

theorem expand_eq_product_escaped_comma :
    let before := ['x', '}', '\\', '{', ',']
    let alternatives := [['a', '\\', ','], ['{', 'b', ',', 'c', '}', 'd'], []]
    let after := ['{', 'e', '}', '{']
    (.plain '{' ∉ ofText true before ∧ endsInEscape true before = false ∧
      ∀ alternative ∈ alternatives,
        balances 0 (ofText true alternative) = true ∧
          enclosesCommas 0 (ofText true alternative) = true ∧
          endsInEscape true alternative = false) ∧
      expand true (before ++ '{' :: [','].intercalate alternatives ++ '}' :: after) =
        (alternatives.flatMap fun alternative => (expand true alternative).flatMap fun inner =>
          (expand true after).map fun rest => before ++ inner ++ rest) ∧
      .plain '{' ∉ ofText true before ∧ expand true before = [before] :=
  have flat : .plain '{' ∉ ofText true ['x', '}', '\\', '{', ','] := by decide
  have closed : endsInEscape true ['x', '}', '\\', '{', ','] = false := by decide
  have each : ∀ alternative ∈ [['a', '\\', ','], ['{', 'b', ',', 'c', '}', 'd'], []],
      balances 0 (ofText true alternative) = true ∧
        enclosesCommas 0 (ofText true alternative) = true ∧
        endsInEscape true alternative = false := by
    decide
  ⟨⟨flat, closed, each⟩,
    (expand_eq_product true).1 _ ['{', 'e', '}', '{'] _ (by decide) flat closed each, flat,
    (expand_eq_product true).2 _ flat⟩

end Braces

end Glob
