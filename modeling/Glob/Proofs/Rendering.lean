import Glob.Proofs.Escaped

/-!
Rendering writes a sequence of pieces as a pattern. Under the options by default, reading the
pattern of a sequence in normal form gives back the sequence: no piece is read differently for what
stands around it.
-/

namespace Glob

def Quantifier.sigil : Quantifier → Char
  | exactlyOne => '@'
  | zeroOrOne => '?'
  | zeroOrMore => '*'
  | oneOrMore => '+'
  | negated => '!'

/-- A range with escaped bounds, or the name of a class. -/
def CharClass.render : CharClass → List Char
  | range lower upper => ['\\', lower, '-', '\\', upper]
  | named name => '[' :: ':' :: (name.name.toList ++ [':', ']'])

namespace Piece

mutual

def render : List Piece → List Char
  | [] => []
  | piece :: rest => piece.renderOne ++ render rest

def renderOne : Piece → List Char
  | separator => ['/']
  | literal text => escape text
  | anyChar => ['?']
  | bracket members negated =>
    '[' :: ((if negated then ['!'] else []) ++ members.flatMap CharClass.render ++ [']'])
  | star => ['*']
  | globstar => ['*', '*']
  | list quantifier alternatives =>
    quantifier.sigil :: '(' :: (renderJoined alternatives ++ [')'])

def renderJoined : List (List Piece) → List Char
  | [] => []
  | [last] => render last
  | first :: rest => render first ++ '|' :: renderJoined rest

end

end Piece

namespace Bracket

variable {member : CharClass} {members : List CharClass}

theorem splitAtMark?_append {mark : Char} {name : List Char} (unmarked : mark ∉ name)
    (after : List Char) :
    splitAtMark? mark (name ++ mark :: ']' :: after) = some (name, after) := by
  induction name with
  | nil => simp [splitAtMark?]
  | cons c later ih =>
      rw [List.mem_cons, not_or] at unmarked
      cases later with
      | nil => simp_all [splitAtMark?, Ne.symm unmarked.1]
      | cons d later => simp_all [splitAtMark?, Ne.symm unmarked.1]

theorem readMember_render (inOrder : member.inOrder = true) (after : List Char) :
    readMember {} (member.render ++ after) = .ok ([member], after) := by
  cases member with
  | range lower upper =>
      have bounds : lower ≤ upper := by simpa [CharClass.inOrder] using inOrder
      simp [CharClass.render, readMember, readBound, bounds]
  | named name =>
      have unmarked : ':' ∉ name.name.toList := by cases name <;> decide
      have known : PosixClass.ofName? name.name = some name := by cases name <;> decide
      simp [CharClass.render, readMember, splitAtMark?_append unmarked, known]

theorem exists_render (member : CharClass) (after : List Char) :
    ∃ c rest, member.render ++ after = c :: rest ∧ c ≠ ']' ∧ c ≠ '!' := by
  cases member with
  | range lower upper => exact ⟨'\\', _, rfl, by decide, by decide⟩
  | named name => exact ⟨'[', _, rfl, by decide, by decide⟩

theorem readMembers_render (first : Bool) (inOrder : ∀ member ∈ members, member.inOrder = true)
    (after : List Char) :
    readMembers {} first (members.flatMap CharClass.render ++ ']' :: after) =
      .ok (members, after) := by
  induction members generalizing first with
  | nil => simp [readMembers]
  | cons member later ih =>
      have own := readMember_render (inOrder member List.mem_cons_self)
        (later.flatMap CharClass.render ++ ']' :: after)
      have others := ih false fun next present => inOrder next (List.mem_cons_of_mem member present)
      obtain ⟨c, rest, same, inside, _⟩ :=
        exists_render member (later.flatMap CharClass.render ++ ']' :: after)
      rw [same] at own
      rw [List.flatMap_cons, List.append_assoc, same, readMembers, if_neg (by simp [inside]), own]
      simp only
      rw [others]
      rfl

theorem read_of_readMembers {options : Options} {c : Char} {rest after : List Char}
    {negated : Bool}
    (mark : options.negation.isNegation c = negated)
    (found : readMembers options true (if negated then rest else c :: rest) =
      .ok (members, after)) :
    read options (c :: rest) = .ok (negated, members, after) := by
  subst mark
  rw [read]
  simp only [found]

theorem read_render (negated : Bool) (nonempty : members ≠ [])
    (inOrder : ∀ member ∈ members, member.inOrder = true) (after : List Char) :
    read {} ((if negated then ['!'] else []) ++ members.flatMap CharClass.render ++ ']' :: after) =
      .ok (negated, members, after) := by
  have all := readMembers_render true inOrder after
  cases negated with
  | true => exact read_of_readMembers rfl all
  | false =>
      cases members with
      | nil => exact absurd rfl nonempty
      | cons member later =>
          rw [if_neg Bool.false_ne_true, List.nil_append]
          rw [List.flatMap_cons, List.append_assoc] at all ⊢
          obtain ⟨c, rest, same, _, unmarked⟩ :=
            exists_render member (later.flatMap CharClass.render ++ ']' :: after)
          rw [same] at all ⊢
          exact read_of_readMembers (beq_eq_false_iff_ne.mpr unmarked) all

end Bracket

namespace Token

variable {inList : Bool} {rest : List Char}

theorem read_star (unopened : rest.head? ≠ some '(') :
    read {} inList '*' rest = .ok (.star, rest) := by
  simp [read, ofChar, opening?_eq_none unopened]

theorem read_bracket {members : List CharClass} (negated : Bool) (nonempty : members ≠ [])
    (inOrder : ∀ member ∈ members, member.inOrder = true) (after : List Char) :
    read {} inList '[' ((if negated then ['!'] else []) ++ members.flatMap CharClass.render ++
      ']' :: after) = .ok (.bracket members negated, after) := by
  have closed (rest : List Char) : opening? {} '[' rest = none := by
    unfold opening?
    split <;> rfl
  have found := Bracket.read_render negated nonempty inOrder after
  simp only [read, ofChar, closed, ofBracket, found]
  cases members with
  | nil => exact absurd rfl nonempty
  | cons member later => cases inList <;> rfl

theorem read_sigil {quantifier : Quantifier} :
    read {} inList quantifier.sigil ('(' :: rest) = .ok (.opening quantifier, rest) := by
  cases quantifier <;> cases inList <;> rfl

end Token

namespace Piece

variable {piece : Piece} {after : List Char}

theorem head?_renderOne_append (unopened : after.head? ≠ some '(') :
    (piece.renderOne ++ after).head? ≠ some '(' := by
  cases piece with
  | literal text =>
      cases text with
      | nil => exact unopened
      | cons c later => simp [renderOne, escape]
  | list quantifier alternatives => cases quantifier <;> simp [renderOne, Quantifier.sigil]
  | separator | anyChar | bracket | star | globstar => simp [renderOne]

theorem head?_render_append (pieces : List Piece) (unopened : after.head? ≠ some '(') :
    (render pieces ++ after).head? ≠ some '(' := by
  induction pieces with
  | nil => exact unopened
  | cons piece rest ih =>
      rw [render, List.append_assoc]
      exact head?_renderOne_append ih

end Piece

namespace Reader

variable {pieces : List Piece} {piece : Piece} {lists : List OpenList}
  {current before : List Piece} {alternatives : List (List Piece)} {quantifier : Quantifier}
  {after sigil : List Char}

/-- Whether a piece that is read next stays a piece of its own. -/
def ReadApart (current : List Piece) (piece : Piece) : Prop :=
  ∀ previous ∈ current.head?, previous.isWildcard = true → piece.isWildcard = false

theorem readApart_letters {next : Piece} (proper : piece.isProper = true)
    (apart : piece.staysApart next = true) :
    ReadApart (piece.letters.reverse ++ current) next := by
  intro previous first wild
  cases piece with
  | literal text =>
      have nonempty : (Piece.literal text).letters.reverse ≠ [] := by
        simpa [Piece.isProper, Piece.letters] using proper
      rw [List.head?_append_of_ne_nil _ nonempty] at first
      obtain ⟨c, _, rfl⟩ : ∃ c ∈ text, Piece.literal [c] = previous := by
        simpa [Piece.letters] using List.mem_of_mem_head? first
      cases wild
  | separator | anyChar | bracket | star | globstar | list =>
      cases first
      simpa [Piece.staysApart, Piece.isLiteral, wild] using apart

theorem pushStar_of_readApart (apart : ReadApart current .star) :
    pushStar .doubleStarCrosses current = .star :: current := by
  unfold pushStar
  split
  · cases apart _ rfl rfl
  · cases apart _ rfl rfl
  · rfl

/-- The pattern of a sequence is read as its letters, wherever it stands. -/
def ReadsBack (pieces : List Piece) : Prop :=
  ∀ (lists : List OpenList) (current : List Piece) (after : List Char),
    after.head? ≠ some '(' → (∀ piece ∈ pieces.head?, ReadApart current piece) →
      run {} ⟨lists, current⟩ (Piece.render pieces ++ after) =
        run {} ⟨lists, (pieces.flatMap Piece.letters).reverse ++ current⟩ after

theorem ReadsBack.run_fresh (reads : ReadsBack pieces) (unopened : after.head? ≠ some '(') :
    run {} ⟨lists, []⟩ (Piece.render pieces ++ after) =
      run {} ⟨lists, (pieces.flatMap Piece.letters).reverse⟩ after := by
  have read := reads lists [] after unopened (by simp [ReadApart])
  rw [List.append_nil] at read
  exact read

theorem run_star (apart : ReadApart current .star) (unopened : after.head? ≠ some '(') :
    run {} ⟨lists, current⟩ ('*' :: after) = run {} ⟨lists, .star :: current⟩ after := by
  rw [← pushStar_of_readApart apart]
  exact run_step (Token.read_star unopened) rfl

theorem run_globstar (apart : ReadApart current .star) (unopened : after.head? ≠ some '(') :
    run {} ⟨lists, current⟩ ('*' :: '*' :: after) = run {} ⟨lists, .globstar :: current⟩ after := by
  rw [run_star apart (by simp)]
  exact run_step (Token.read_star unopened) rfl

theorem run_divider {complete : List (List Piece)} (whole : assemble current = pieces) :
    run {} ⟨⟨sigil, quantifier, before, complete⟩ :: lists, current⟩ ('|' :: after) =
      run {} ⟨⟨sigil, quantifier, before, pieces :: complete⟩ :: lists, []⟩ after := by
  subst whole
  have found : Token.read {} true '|' after = .ok (.divider, after) := rfl
  exact run_step found rfl

theorem run_closing {complete : List (List Piece)} (whole : assemble current = pieces)
    (filled : complete.reverse ++ [pieces] ≠ [[]]) :
    run {} ⟨⟨sigil, quantifier, before, complete⟩ :: lists, current⟩ (')' :: after) =
      run {} ⟨lists, .list quantifier (complete.reverse ++ [pieces]) :: before⟩ after := by
  have closed : take {} ⟨⟨sigil, quantifier, before, complete⟩ :: lists, current⟩ .closing
      (')' :: after) = .ok ⟨lists, .list quantifier (complete.reverse ++ [pieces]) :: before⟩ := by
    -- The only list that is refused is excluded by the hypothesis.
    rw [← List.reverse_cons] at filled ⊢
    simp only [take, whole]
  have found : Token.read {} true ')' after = .ok (.closing, after) := rfl
  exact run_step found closed

theorem run_renderJoined (complete : List (List Piece)) (nonempty : alternatives ≠ [])
    (filled : complete.reverse ++ alternatives ≠ [[]])
    (each : ∀ alternative ∈ alternatives, ReadsBack alternative ∧ Piece.Normal alternative) :
    run {} ⟨⟨sigil, quantifier, before, complete⟩ :: lists, []⟩
        (Piece.renderJoined alternatives ++ ')' :: after) =
      run {} ⟨lists, .list quantifier (complete.reverse ++ alternatives) :: before⟩ after := by
  induction alternatives generalizing complete with
  | nil => exact absurd rfl nonempty
  | cons first later ih =>
      obtain ⟨reads, normal⟩ := each first List.mem_cons_self
      have whole := assemble_letters normal
      cases later with
      | nil =>
          rw [Piece.renderJoined, reads.run_fresh (by simp)]
          exact run_closing whole filled
      | cons next others =>
          have rest := ih (first :: complete) (by simp) (by simpa using filled)
            fun other present => each other (List.mem_cons_of_mem first present)
          calc
            _ = run {} ⟨⟨sigil, quantifier, before, complete⟩ :: lists, []⟩ (Piece.render first ++
                '|' :: (Piece.renderJoined (next :: others) ++ ')' :: after)) := by
              simp [Piece.renderJoined]
            _ = run {} ⟨⟨sigil, quantifier, before, complete⟩ :: lists,
                (first.flatMap Piece.letters).reverse⟩
                ('|' :: (Piece.renderJoined (next :: others) ++ ')' :: after)) :=
              reads.run_fresh (by simp)
            _ = run {} ⟨⟨sigil, quantifier, before, first :: complete⟩ :: lists, []⟩
                (Piece.renderJoined (next :: others) ++ ')' :: after) := run_divider whole
            _ = _ := rest
            _ = _ := by simp

theorem run_renderOne (lists : List OpenList) (proper : piece.isProper = true)
    (apart : ReadApart current piece) (unopened : after.head? ≠ some '(')
    (inside : ∀ quantifier alternatives, piece = .list quantifier alternatives →
      ∀ alternative ∈ alternatives, ReadsBack alternative ∧ Piece.Normal alternative) :
    run {} ⟨lists, current⟩ (piece.renderOne ++ after) =
      run {} ⟨lists, piece.letters.reverse ++ current⟩ after := by
  have closed (c : Char) : Token.opening? {} c after = none := Token.opening?_eq_none unopened
  cases piece with
  | separator => exact run_step (Token.read_separator rfl (!lists.isEmpty) after) rfl
  | literal text => exact run_escape rfl lists current text after
  | anyChar =>
      have found : Token.read {} (!lists.isEmpty) '?' after = .ok (.anyChar, after) := by
        simp [Token.read, Token.ofChar, closed]
      exact run_step found rfl
  | bracket members negated =>
      obtain ⟨nonempty, inOrder⟩ : members ≠ [] ∧ ∀ member ∈ members, member.inOrder = true := by
        simpa [Piece.isProper] using proper
      rw [Piece.renderOne, List.cons_append, List.append_assoc, List.singleton_append]
      exact run_step (Token.read_bracket negated nonempty inOrder after) rfl
  | star => exact run_star apart unopened
  | globstar => exact run_globstar apart unopened
  | list quantifier alternatives =>
      have nonempty : alternatives ≠ [] := by
        intro empty
        subst empty
        cases proper
      have filled : alternatives ≠ [[]] := by
        intro empty
        subst empty
        cases proper
      rw [Piece.renderOne, List.cons_append, List.cons_append, List.append_assoc,
        List.singleton_append, run_step Token.read_sigil rfl,
        run_renderJoined [] nonempty filled (inside quantifier alternatives rfl)]
      rfl

theorem readsBack_of_normal (normal : Piece.Normal pieces) : ReadsBack pieces := by
  induction pieces using Piece.depth_induction with
  | step pieces deeper =>
      have inside : ∀ quantifier alternatives, .list quantifier alternatives ∈ pieces →
          ∀ alternative ∈ alternatives, ReadsBack alternative ∧ Piece.Normal alternative := by
        intro quantifier alternatives present alternative member
        have own := normal.of_alternative present member
        exact ⟨deeper quantifier alternatives present alternative member own, own⟩
      -- What is left is an induction along the sequence, whose lists are all known to be read back.
      clear deeper
      induction pieces with
      | nil => exact fun _ _ _ _ _ => rfl
      | cons piece rest ih =>
          have later := ih normal.tail fun quantifier alternatives present =>
            inside quantifier alternatives (List.mem_cons_of_mem piece present)
          intro lists current after unopened apart
          have proper := normal.proper.mem List.mem_cons_self
          have within : ∀ quantifier alternatives, piece = .list quantifier alternatives →
              ∀ alternative ∈ alternatives, ReadsBack alternative ∧ Piece.Normal alternative := by
            intro quantifier alternatives same
            exact inside quantifier alternatives (same ▸ List.mem_cons_self)
          have own := run_renderOne lists proper (apart piece rfl)
            (Piece.head?_render_append rest unopened) within
          have following : ∀ next ∈ rest.head?, ReadApart (piece.letters.reverse ++ current) next :=
            fun next first => readApart_letters proper
              ((List.isChain_cons.mp normal.chain).1 next first)
          calc
            run {} ⟨lists, current⟩ (Piece.render (piece :: rest) ++ after) =
                run {} ⟨lists, current⟩ (piece.renderOne ++ (Piece.render rest ++ after)) := by
              rw [Piece.render, List.append_assoc]
            _ = run {} ⟨lists, piece.letters.reverse ++ current⟩ (Piece.render rest ++ after) := own
            _ = run {} ⟨lists, (rest.flatMap Piece.letters).reverse ++
                (piece.letters.reverse ++ current)⟩ after := later _ _ _ unopened following
            _ = _ := by rw [List.flatMap_cons, List.reverse_append, List.append_assoc]

end Reader

namespace Pattern

/-- A sequence in normal form is compiled from its pattern. -/
theorem compile_render (tree : List Piece) (normal : Piece.Normal tree) :
    compile {} (String.ofList (Piece.render tree)) =
      .ok ⟨String.ofList (Piece.render tree), [tree], {}⟩ := by
  apply compile_of_ofText rfl
  rw [String.toList_ofList, Piece.ofText]
  rw [← List.append_nil (Piece.render tree),
    (Reader.readsBack_of_normal normal).run_fresh (by simp), Reader.run_letters normal]

theorem compile_render_nested :
    let tree : List Piece := [.literal ['*', '/'], .bracket [.range '!' ']', .named .alpha] true,
      .globstar, .list .zeroOrMore [[], [.star, .list .negated [[.anyChar], [.literal [')']]]],
        [.separator]], .separator]
    let source := "\\*\\/[!\\!-\\][:alpha:]]***(|*!(?|\\))|/)/"
    Piece.Normal tree ∧ compile {} source = .ok ⟨source, [tree], {}⟩ := by
  intro tree source
  have normal : Piece.Normal tree := by decide
  have rendered : String.ofList (Piece.render tree) = source := rfl
  exact ⟨normal, rendered ▸ compile_render tree normal⟩

end Pattern

end Glob
