import Glob.Proofs.Escaped
import Glob.Proofs.Remainder

/-!
Reading goes on past the end of a pattern as it began, so that two patterns with a separator between
them are read side by side.
-/

namespace Glob

variable {options : Options}

namespace Bracket

variable {mark : Char} {text name after : List Char} {members : List CharClass}

theorem splitAtMark?_append_of_found (more : List Char)
    (found : splitAtMark? mark text = some (name, after)) :
    splitAtMark? mark (text ++ more) = some (name, after ++ more) := by
  fun_induction splitAtMark? mark text generalizing name with
  | case1 c d rest closes =>
      cases found
      rw [List.cons_append, List.cons_append, splitAtMark?, if_pos closes]
  | case2 c d rest open_ ih =>
      obtain ⟨⟨later, _⟩, found, same⟩ := Option.map_eq_some_iff.mp found
      cases same
      have longer := ih found
      rw [List.cons_append] at longer
      rw [List.cons_append, List.cons_append, splitAtMark?, if_neg open_, longer]
      rfl
  | case3 => cases found

theorem readBound_append {escapes : Bool} {c : Char} (more : List Char) (nonempty : after ≠ [])
    (found : readBound escapes text = .ok (c, after)) :
    readBound escapes (text ++ more) = .ok (c, after ++ more) := by
  unfold readBound halt at found
  split at found
  case h_1 => cases found
  case h_2 mark rest =>
    simp only [List.cons_append, readBound]
    split at found
    · next symbol =>
        rw [if_pos symbol]
        split at found
        · cases found
        · next named =>
            cases found
            rw [splitAtMark?_append_of_found more named]
        · cases found
    · next plain =>
        cases found
        rw [if_neg plain]
        rfl
  case h_3 rest =>
    split at found
    · next escapes =>
        split at found
        · cases found
        · cases found
          simp [readBound, escapes]
    · next plain =>
        cases found
        simp [readBound, plain]
  case h_4 d rest notSymbol notEscape =>
    cases found
    obtain ⟨e, rest, rfl⟩ := List.exists_cons_of_ne_nil nonempty
    exact readBound.eq_5 _ _ _ (fun mark later same _ => notSymbol e rest same rfl) notEscape

/-- What is read where no class begins and no hyphen stands for itself: one character, one with a
hyphen before the closing bracket, or a range. -/
inductive Bounded (options : Options) (text : List Char) : List CharClass → List Char → Prop
  | single {lower : Char} {after : List Char}
    (bound : readBound options.escapes text = .ok (lower, after))
    (alone : ∀ rest, after ≠ '-' :: rest) : Bounded options text [.single lower] after
  | edge {lower : Char} {after : List Char}
    (bound : readBound options.escapes text = .ok (lower, '-' :: ']' :: after))
    (hyphens : options.edgeHyphens = true) :
    Bounded options text [.single lower, .single '-'] (']' :: after)
  | range {lower upper : Char} {rest after : List Char}
    (bound : readBound options.escapes text = .ok (lower, '-' :: rest))
    (goesOn : ∀ later, rest ≠ ']' :: later)
    (last : readBound options.escapes rest = .ok (upper, after)) (inOrder : lower ≤ upper) :
    Bounded options text [.range lower upper] after

theorem readMember_eq_ok_iff_bounded (noClass : ∀ rest, text ≠ '[' :: ':' :: rest)
    (noHyphen : ∀ rest, text ≠ '-' :: rest) :
    readMember options text = .ok (members, after) ↔ Bounded options text members after := by
  constructor
  · intro found
    rw [readMember.eq_3 options text noClass noHyphen] at found
    split at found
    · cases found
    · next bound =>
        split at found
        · next hyphens => cases found; exact .edge bound hyphens
        · cases found
    · next goesOn bound =>
        split at found
        · cases found
        · next last =>
            split at found
            · next inOrder => cases found; exact .range bound goesOn last inOrder
            · cases found
    · next alone bound => cases found; exact .single bound alone
  · rintro (⟨bound, alone⟩ | ⟨bound, hyphens⟩ | ⟨bound, goesOn, last, inOrder⟩)
    · exact readMember_eq_single noClass noHyphen bound alone
    · rw [readMember.eq_3 options text noClass noHyphen, bound]
      exact if_pos hyphens
    · rw [readMember_eq_range noClass noHyphen bound goesOn, last]
      exact if_pos inOrder

theorem append_ne_cons {c : Char} {rest : List Char} (more : List Char) (nonempty : rest ≠ [])
    (other : ∀ later, rest ≠ c :: later) (later : List Char) : rest ++ more ≠ c :: later := by
  cases rest with
  | nil => exact absurd rfl nonempty
  | cons d rest =>
      intro same
      obtain ⟨rfl, -⟩ := List.cons.inj same
      exact other rest rfl

theorem Bounded.append (more : List Char) (nonempty : after ≠ [])
    (bounded : Bounded options text members after) :
    Bounded options (text ++ more) members (after ++ more) := by
  cases bounded with
  | single bound alone =>
      exact .single (readBound_append more nonempty bound) (append_ne_cons more nonempty alone)
  | edge bound hyphens =>
      exact .edge (readBound_append more (List.cons_ne_nil _ _) bound) hyphens
  | range bound goesOn last inOrder =>
      refine .range (readBound_append more (List.cons_ne_nil _ _) bound) ?_
        (readBound_append more nonempty last) inOrder
      apply append_ne_cons more _ goesOn
      rintro rfl
      cases last

theorem readMember_append (more : List Char) (nonempty : after ≠ [])
    (found : readMember options text = .ok (members, after)) :
    readMember options (text ++ more) = .ok (members, after ++ more) := by
  have read := found
  unfold readMember halt at found
  split at found
  case h_1 rest =>
    simp only [List.cons_append, readMember]
    split at found
    · cases found
    · next named =>
        split at found
        · cases found
        · next known =>
            cases found
            simp only [splitAtMark?_append_of_found more named, known]
  case h_2 rest =>
    split at found
    · next hyphens =>
        cases found
        simp only [List.cons_append, readMember, if_pos hyphens]
    · cases found
  case h_3 noClass noHyphen =>
    have bounded := (readMember_eq_ok_iff_bounded noClass noHyphen).mp read
    -- At least two characters are there, so more text begins no class.
    have shorter := length_of_readMember read
    rcases text with _ | ⟨c, _ | ⟨d, rest⟩⟩
    · cases shorter
    · rw [List.length_singleton, Nat.lt_one_iff] at shorter
      exact absurd (List.eq_nil_of_length_eq_zero shorter) nonempty
    · refine (readMember_eq_ok_iff_bounded ?_ ?_).mpr (bounded.append more nonempty)
      · intro later same
        obtain ⟨rfl, rfl, -⟩ : c = '[' ∧ d = ':' ∧ _ := by simpa using same
        exact noClass rest rfl
      · exact append_ne_cons more (List.cons_ne_nil _ _) noHyphen

theorem readMembers_append {first : Bool} (more : List Char)
    (found : readMembers options first text = .ok (members, after)) :
    readMembers options first (text ++ more) = .ok (members, after ++ more) := by
  fun_induction readMembers options first text generalizing members with
  | case1 => cases found
  | case2 first c rest closes =>
      cases found
      rw [List.cons_append, readMembers, if_pos closes]
  | case3 => cases found
  | case4 => cases found
  | case5 first c rest stays members middle read later after more' ih =>
      cases found
      have unfinished : middle ≠ [] := by
        rintro rfl
        rw [readMembers] at more'
        cases more'
      have longer := readMember_append more unfinished read
      rw [List.cons_append] at longer ⊢
      rw [readMembers, if_neg stays, longer]
      simp only [ih more']

theorem read_append {negated : Bool} (more : List Char)
    (found : read options text = .ok (negated, members, after)) :
    read options (text ++ more) = .ok (negated, members, after ++ more) := by
  cases text with
  | nil => cases found
  | cons c rest =>
      simp only [read] at found
      split at found
      · cases found
      · next all =>
          cases found
          have longer := readMembers_append more all
          simp only [apply_ite (· ++ more), List.cons_append] at longer
          simp only [List.cons_append, read, longer]

end Bracket

namespace Token

variable {inList : Bool} {c : Char} {rest after more : List Char} {token : Token}

theorem ofBracket_append (closed : options.unclosedBracket = .reject) (more : List Char)
    (found : ofBracket options rest = .ok (token, after)) :
    ofBracket options (rest ++ more) = .ok (token, after ++ more) := by
  apply ofBracket_iff.mpr
  cases ofBracket_iff.mp found with
  | empty read allows => exact .empty (Bracket.read_append more read) allows
  | closed read filled => exact .closed (Bracket.read_append more read) filled
  | literal _ allows =>
      rw [closed] at allows
      cases allows

/-- Where something else is done to what follows a token, the token is still read if its own
characters stay: those of a bracket expression, of an escape or of the beginning of a list. -/
theorem read_map (f : List Char → List Char)
    (bracket : c = '[' → ofBracket options rest = .ok (token, after) →
      ofBracket options (f rest) = .ok (token, f after))
    (escape : ∀ d later, c = '\\' → rest = d :: later → f rest = d :: f later)
    (opening : opening? options c (f rest) =
      (opening? options c rest).map fun (quantifier, after) => (quantifier, f after))
    (found : read options inList c rest = .ok (token, after)) :
    read options inList c (f rest) = .ok (token, f after) := by
  have char (found : ofChar options c rest = .ok (token, after)) :
      ofChar options c (f rest) = .ok (token, f after) := by
    apply ofChar_iff.mpr
    cases ofChar_iff.mp found with
    | star mark => exact .star mark
    | anyChar mark => exact .anyChar mark
    | bracket mark found => exact .bracket mark (bracket mark found)
    | separator plain separates => exact .separator plain separates
    | literal plain other => exact .literal plain other
  apply read_iff.mpr
  cases read_iff.mp found with
  | divider inside mark => exact .divider inside mark
  | closing inside mark => exact .closing inside mark
  | escaped escapes mark next => exact .escaped escapes mark (escape _ after mark next)
  | opening stays plain found =>
      rw [found] at opening
      exact .opening stays plain opening
  | char stays plain apart found =>
      rw [apart] at opening
      exact .char stays plain opening (char found)

theorem opening_append (apart : more.head? ≠ some '(') :
    opening? options c (rest ++ more) =
      (opening? options c rest).map fun (quantifier, after) => (quantifier, after ++ more) := by
  rcases rest with _ | ⟨d, rest⟩
  · rw [List.nil_append, opening?_eq_none apart]
    rfl
  · by_cases parenthesis : d = '('
    · subst parenthesis
      simp only [List.cons_append, opening?]
      split
      · rw [Option.map_map]
        rfl
      · rfl
    · simp [opening?, parenthesis]

theorem read_append (closed : options.unclosedBracket = .reject) (apart : more.head? ≠ some '(')
    (found : read options inList c rest = .ok (token, after)) :
    read options inList c (rest ++ more) = .ok (token, after ++ more) := by
  refine read_map (· ++ more) (fun _ => ofBracket_append closed more) ?_ (opening_append apart) found
  rintro d later - rfl
  rfl

end Token

def OpenList.mapSigil (f : List Char → List Char) (list : OpenList) : OpenList :=
  { list with sigil := f list.sigil }

def Reader.mapSigils (f : List Char → List Char) (reader : Reader) : Reader :=
  { reader with lists := reader.lists.map (OpenList.mapSigil f) }

def Failure.mapRest (f : List Char → List Char) (failure : Failure) : Failure :=
  { failure with rest := f failure.rest }

def OpenList.extend (more : List Char) (list : OpenList) : OpenList :=
  { list with sigil := list.sigil ++ more }

namespace Reader

variable {reader next : Reader} {token : Token} {text more : List Char} {pieces : List Piece}

@[simp] theorem isEmpty_lists_mapSigils (f : List Char → List Char) (reader : Reader) :
    (reader.mapSigils f).lists.isEmpty = reader.lists.isEmpty :=
  List.isEmpty_map

theorem take_mapSigils (options : Options) (f : List Char → List Char) (reader : Reader)
    (token : Token) (text : List Char) :
    (reader.mapSigils f).take options token (f text) =
      ((reader.take options token text).map (mapSigils f)).mapError (Failure.mapRest f) := by
  obtain ⟨lists, current⟩ := reader
  cases token with
  | literal | star | anyChar | separator | bracket | nothing | opening => rfl
  | divider => cases lists <;> rfl
  | closing =>
      cases lists with
      | nil => rfl
      | cons list outer =>
          simp only [take, mapSigils, List.map_cons, OpenList.mapSigil]
          -- Both refuse a list whose one alternative is empty.
          split <;> rfl

theorem finish_mapSigils (f : List Char → List Char) (reader : Reader) :
    (reader.mapSigils f).finish = reader.finish.mapError (Failure.mapRest f) := by
  obtain ⟨lists, current⟩ := reader
  cases lists <;> rfl

def extend (more : List Char) (reader : Reader) : Reader :=
  { reader with lists := reader.lists.map (OpenList.extend more) }

theorem take_extend (more : List Char) (taken : reader.take options token text = .ok next) :
    (reader.extend more).take options token (text ++ more) = .ok (next.extend more) := by
  have mapped := take_mapSigils options (· ++ more) reader token text
  rw [taken] at mapped
  exact mapped

/-- A pattern that can be read leaves no list open, so what follows is read from where it ends. -/
theorem run_extend (closed : options.unclosedBracket = .reject) (apart : more.head? ≠ some '(')
    (read : reader.run options text = .ok pieces) :
    ∃ current, assemble current = pieces ∧
      (reader.extend more).run options (text ++ more) = run options ⟨[], current⟩ more := by
  fun_induction run options reader text with
  | case1 reader =>
      obtain ⟨lists, current⟩ := reader
      cases lists with
      | nil =>
          refine ⟨current, ?_, rfl⟩
          simpa [finish] using read
      | cons list lists => cases read
  | case2 => cases read
  | case3 => cases read
  | case4 reader c rest token after found next taken ih =>
      obtain ⟨current, same, goesOn⟩ := ih read
      refine ⟨current, same, ?_⟩
      have inside : (reader.extend more).lists.isEmpty = reader.lists.isEmpty := by
        simp [extend]
      rw [← goesOn, List.cons_append]
      apply run_step
      · rw [inside]
        exact Token.read_append closed apart found
      · exact take_extend more taken

end Reader

/-- Puts what was read before under everything that the reader holds. -/
def OpenList.onto (base : List Piece) (list : OpenList) : OpenList :=
  { list with before := list.before ++ base }

namespace Reader

variable {reader next : Reader} {token : Token} {text : List Char} {base older : List Piece}

/-- What was read before stands before the outermost list. -/
def listsOnto (base : List Piece) : List OpenList → List OpenList
  | [] => []
  | [outermost] => [outermost.onto base]
  | list :: next :: outer => list :: listsOnto base (next :: outer)

def onto (base : List Piece) (reader : Reader) : Reader where
  lists := listsOnto base reader.lists
  current := if reader.lists.isEmpty then reader.current ++ base else reader.current

theorem isEmpty_listsOnto (base : List Piece) (lists : List OpenList) :
    (listsOnto base lists).isEmpty = lists.isEmpty := by
  fun_cases listsOnto <;> rfl

theorem pushStar_onto (reach : WildcardReach) (older pieces : List Piece) :
    pushStar reach (pieces ++ .separator :: older) =
      pushStar reach pieces ++ .separator :: older := by
  rcases pieces with _ | ⟨piece, rest⟩
  · rfl
  · cases piece <;> rfl

theorem take_onto (older : List Piece) (reader : Reader) (token : Token) (text : List Char) :
    (reader.onto (.separator :: older)).take options token text =
      (reader.take options token text).map (onto (.separator :: older)) := by
  obtain ⟨lists, current⟩ := reader
  cases token with
  | literal | anyChar | separator | bracket | nothing => cases lists <;> rfl
  | star =>
      cases lists with
      | nil =>
          have apart := pushStar_onto options.wildcardReach older current
          exact congrArg (fun pieces => Except.ok (Reader.mk [] pieces)) apart
      | cons => rfl
  | opening => cases lists <;> rfl
  | divider => rcases lists with _ | ⟨list, _ | ⟨next, outer⟩⟩ <;> rfl
  | closing =>
      rcases lists with _ | ⟨list, _ | ⟨next, outer⟩⟩
      · rfl
      · simp only [take, onto, listsOnto, OpenList.onto, List.isEmpty_cons, Bool.false_eq_true,
          if_false]
        split <;> rfl
      · simp only [take, onto, listsOnto, List.isEmpty_cons, Bool.false_eq_true, if_false]
        split <;> rfl

theorem prepend_onto (older pieces : List Piece) (piece : Piece) :
    prepend piece (pieces ++ .separator :: older) =
      prepend piece pieces ++ .separator :: older := by
  rcases pieces with _ | ⟨first, rest⟩
  · cases piece <;> rfl
  · cases piece <;> cases first <;> rfl

theorem assemble_onto (older pieces : List Piece) :
    assemble (pieces ++ .separator :: older) = assemble older ++ .separator :: assemble pieces := by
  have kept (between later : List Piece) :
      older.foldl (fun later piece => prepend piece later) (between ++ .separator :: later) =
        older.foldl (fun later piece => prepend piece later) between ++ .separator :: later := by
    induction older generalizing between with
    | nil => rfl
    | cons piece older ih => rw [List.foldl_cons, List.foldl_cons, prepend_onto, ih]
  rw [assemble, List.foldl_append]
  exact kept [] (assemble pieces)

theorem finish_onto (older : List Piece) (reader : Reader) :
    (reader.onto (.separator :: older)).finish =
      reader.finish.map fun pieces => assemble older ++ .separator :: pieces := by
  obtain ⟨lists, current⟩ := reader
  rcases lists with _ | ⟨list, _ | ⟨next, outer⟩⟩
  · exact congrArg Except.ok (assemble_onto older current)
  · rfl
  · rfl

theorem run_onto (older : List Piece) (reader : Reader) (text : List Char) :
    (reader.onto (.separator :: older)).run options text =
      (reader.run options text).map fun pieces => assemble older ++ .separator :: pieces := by
  have inside (reader : Reader) :
      (reader.onto (.separator :: older)).lists.isEmpty = reader.lists.isEmpty :=
    isEmpty_listsOnto _ _
  fun_induction run options reader text with
  | case1 reader => rw [run, finish_onto]
  | case2 reader c rest failure found => 
      rw [run, inside, found]
      rfl
  | case3 reader c rest token after found failure taken => 
      rw [run, inside, found]
      simp only [take_onto, taken]
      rfl
  | case4 reader c rest token after found next taken ih =>
      rw [run, inside, found]
      simp only [take_onto, taken]
      exact ih

end Reader

theorem Piece.ofText_append_separator (separates : options.separator = some '/')
    (closed : options.unclosedBracket = .reject) {left : List Char} {pieces : List Piece}
    (read : ofText options left = .ok pieces) (right : List Char) :
    ofText options (left ++ '/' :: right) =
      (ofText options right).map fun later => pieces ++ .separator :: later := by
  have apart : ('/' :: right).head? ≠ some '(' := by simp
  obtain ⟨current, rfl, goesOn⟩ := Reader.run_extend closed apart read
  calc
    ofText options (left ++ '/' :: right) = Reader.run options ⟨[], current⟩ ('/' :: right) :=
      goesOn
    _ = Reader.run options ⟨[], .separator :: current⟩ right :=
      Reader.run_step (Token.read_separator separates false right) rfl
    _ = _ := Reader.run_onto current ⟨[], []⟩ right

namespace Pattern

theorem within_append_separator {failure : Failure} {left right : String}
    (inside : failure.rest <:+ right.toList) :
    failure.within (left ++ "/" ++ right).toList =
      ⟨left ++ "/" ++ right, (failure.within right.toList).location + left.utf8ByteSize + 1,
        failure.mistake⟩ := by
  have place : (failure.within (left ++ "/" ++ right).toList).location =
      (failure.within right.toList).location + left.utf8ByteSize + 1 := by
    rw [String.toList_append, Failure.location_append _ inside, byteSize_toList,
      String.utf8ByteSize_append, Nat.add_assoc]
    rfl
  rw [← place, Failure.within, String.ofList_toList]

theorem compile_joined (separates : options.separator = some '/')
    (unbraced : options.braces = false) (closed : options.unclosedBracket = .reject)
    {left : String} {pieces : List Piece} (read : Piece.ofText options left.toList = .ok pieces)
    (right : String) :
    compile options (left ++ "/" ++ right) =
      match Piece.ofText options right.toList with
      | .ok later => .ok ⟨left ++ "/" ++ right, [pieces ++ .separator :: later], options⟩
      | .error failure =>
        .error ⟨left ++ "/" ++ right,
          (failure.within right.toList).location + left.utf8ByteSize + 1, failure.mistake⟩ := by
  have joined : (left ++ "/" ++ right).toList = left.toList ++ '/' :: right.toList := by simp
  have both := Piece.ofText_append_separator separates closed read right.toList
  rw [← joined] at both
  rw [compile_unbraced unbraced, both]
  cases last : Piece.ofText options right.toList with
  | ok later => rfl
  | error failure =>
      have inside := Piece.suffix_of_ofText_error last
      exact congrArg Except.error (within_append_separator inside)

/-- Patterns are read side by side: where the first one can be read, a separator and a second one
after it can be read if and only if the second one can, its pieces are those of both, and a mistake
in the second one is the same mistake further on. -/
theorem compile_append_separator (separates : options.separator = some '/')
    (unbraced : options.braces = false) (closed : options.unclosedBracket = .reject)
    {left : String} {first : Pattern} (read : compile options left = .ok first) (right : String) :
    ((∃ whole, compile options (left ++ "/" ++ right) = .ok whole) ↔
        ∃ last, compile options right = .ok last) ∧
      (∀ last, compile options right = .ok last →
        ∃ pieces later, first.alternatives = [pieces] ∧ last.alternatives = [later] ∧
          compile options (left ++ "/" ++ right) =
            .ok ⟨left ++ "/" ++ right, [pieces ++ .separator :: later], options⟩) ∧
      ∀ error, compile options right = .error error →
        compile options (left ++ "/" ++ right) =
          .error ⟨left ++ "/" ++ right, error.location + left.utf8ByteSize + 1, error.mistake⟩ := by
  rw [compile_unbraced unbraced] at read
  cases front : Piece.ofText options left.toList with
  | error failure =>
      rw [front] at read
      cases read
  | ok pieces =>
      rw [front] at read
      cases read
      rw [compile_joined separates unbraced closed front, compile_unbraced unbraced]
      cases Piece.ofText options right.toList with
      | ok later =>
          refine ⟨⟨fun _ => ⟨_, rfl⟩, fun _ => ⟨_, rfl⟩⟩, ?_, nofun⟩
          intro last same
          cases same
          exact ⟨pieces, later, rfl, rfl, rfl⟩
      | error failure =>
          simp only [reduceCtorEq, exists_false, false_implies, implies_true, true_and]
          intro error same
          obtain rfl := Except.error.inj same
          rfl

theorem compile_append_separator_list :
    let read (source : String) (later : List Piece) : Except PatternError Pattern :=
      .ok ⟨source, [.literal ['é'] ::
        .list .exactlyOne [[.literal ['a']], [.bracket [.range 'b' 'd'] true]] :: later], {}⟩
    (({} : Options).separator = some '/' ∧ ({} : Options).braces = false ∧
        ({} : Options).unclosedBracket = .reject ∧
        compile {} "é@(a|[!b-d])" = read "é@(a|[!b-d])" []) ∧
      compile {} ("é@(a|[!b-d])" ++ "/" ++ "*b") =
        read ("é@(a|[!b-d])" ++ "/" ++ "*b") [.separator, .star, .literal ['b']] ∧
      compile {} ("é@(a|[!b-d])" ++ "/" ++ "b+(x") =
        .error ⟨"é@(a|[!b-d])" ++ "/" ++ "b+(x", 15, .listNotClosed⟩ := by
  have first : compile {} "é@(a|[!b-d])" = .ok ⟨"é@(a|[!b-d])", [[.literal ['é'],
      .list .exactlyOne [[.literal ['a']], [.bracket [.range 'b' 'd'] true]]]], {}⟩ :=
    compile_of_ofText rfl (by with_unfolding_all rfl)
  have last : compile {} "*b" = .ok ⟨"*b", [[.star, .literal ['b']]], {}⟩ :=
    compile_of_ofText rfl (by with_unfolding_all rfl)
  have mistake : compile {} "b+(x" = .error ⟨"b+(x", 1, .listNotClosed⟩ := by
    with_unfolding_all rfl
  obtain ⟨-, whole, -⟩ := compile_append_separator rfl rfl rfl first "*b"
  obtain ⟨-, -, failed⟩ := compile_append_separator rfl rfl rfl first "b+(x"
  obtain ⟨_, _, here, there, together⟩ := whole _ last
  cases here
  cases there
  exact ⟨⟨rfl, rfl, rfl, first⟩, together, failed _ mistake⟩

end Pattern

end Glob
