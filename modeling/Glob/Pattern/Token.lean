import Glob.Piece
import Glob.Pattern.Bracket

/-! The tokens of a pattern. -/

namespace Glob

inductive Token where
  | literal (c : Char)
  | star
  | anyChar
  | separator
  | bracket (members : List CharClass) (negated : Bool)
  /-- A bracket expression without members, where such are left out. -/
  | nothing
  /-- The character and the parenthesis that begin a list. -/
  | opening (quantifier : Quantifier)
  /-- The `|` between two alternatives of a list. -/
  | divider
  /-- The parenthesis that ends a list. -/
  | closing
  deriving DecidableEq, Repr

/-- The quantifier of the list that a character begins, if a parenthesis follows it. -/
def Quantifier.ofSigil? : Char → Option Quantifier
  | '@' => some .exactlyOne
  | '?' => some .zeroOrOne
  | '*' => some .zeroOrMore
  | '+' => some .oneOrMore
  | '!' => some .negated
  | _ => none

namespace Token

/-- The list that begins with the character `c`, and what follows its parenthesis. -/
def opening? (options : Options) (c : Char) : List Char → Option (Quantifier × List Char)
  | '(' :: rest =>
    if options.patternLists then (Quantifier.ofSigil? c).map fun quantifier => (quantifier, rest)
    else none
  | _ => none

/-- The token that a `[` begins. -/
def ofBracket (options : Options) (rest : List Char) : Except Failure (Token × List Char) :=
  match Bracket.read options rest with
  | .ok (_, [], after) =>
    match options.emptyBracket with
    | .reject => .error ⟨.bracketEmpty, '[' :: rest⟩
    | .drop | .closingIsMember => .ok (nothing, after)
  | .ok (negated, members, after) => .ok (bracket members negated, after)
  | .error (.failure failure) => .error failure
  | .error .unclosed =>
    match options.unclosedBracket with
    | .reject => .error ⟨.bracketNotClosed, '[' :: rest⟩
    | .literal => .ok (literal '[', rest)

/-- The token of a character that neither is escaped nor begins or ends a list. -/
def ofChar (options : Options) (c : Char) (rest : List Char) : Except Failure (Token × List Char) :=
  if c = '*' then .ok (star, rest)
  else if c = '?' then .ok (anyChar, rest)
  else if c = '[' then ofBracket options rest
  else if options.separator = some c then .ok (separator, rest)
  else .ok (literal c, rest)

/-- The token that begins with the character `c`, and what follows it. Inside a list the characters
that end an alternative come before all others; an escaped character is always literal. -/
def read (options : Options) (inList : Bool) (c : Char) (rest : List Char) :
    Except Failure (Token × List Char) :=
  if inList && c = '|' then .ok (divider, rest)
  else if inList && c = ')' then .ok (closing, rest)
  else if options.escapes && c = '\\' then
    match rest with
    | [] => .error ⟨.danglingEscape, [c]⟩
    | escaped :: after => .ok (literal escaped, after)
  else
    match opening? options c rest with
    | some (quantifier, after) => .ok (opening quantifier, after)
    | none => ofChar options c rest

inductive OfBracket (options : Options) (rest : List Char) :
    Except Failure (Token × List Char) → Prop where
  | refused {negated : Bool} {after : List Char}
      (read : Bracket.read options rest = .ok (negated, [], after))
      (refuses : options.emptyBracket = .reject) :
      OfBracket options rest (.error ⟨.bracketEmpty, '[' :: rest⟩)
  | empty {negated : Bool} {after : List Char}
      (read : Bracket.read options rest = .ok (negated, [], after))
      (allows : options.emptyBracket ≠ .reject) : OfBracket options rest (.ok (nothing, after))
  | closed {negated : Bool} {members : List CharClass} {after : List Char}
      (read : Bracket.read options rest = .ok (negated, members, after)) (filled : members ≠ []) :
      OfBracket options rest (.ok (bracket members negated, after))
  | mistaken {failure : Failure} (read : Bracket.read options rest = .error (.failure failure)) :
      OfBracket options rest (.error failure)
  | unclosed (read : Bracket.read options rest = .error .unclosed)
      (refuses : options.unclosedBracket = .reject) :
      OfBracket options rest (.error ⟨.bracketNotClosed, '[' :: rest⟩)
  | literal (read : Bracket.read options rest = .error .unclosed)
      (allows : options.unclosedBracket = .literal) :
      OfBracket options rest (.ok (literal '[', rest))

inductive OfChar (options : Options) (c : Char) (rest : List Char) :
    Except Failure (Token × List Char) → Prop where
  | star (mark : c = '*') : OfChar options c rest (.ok (star, rest))
  | anyChar (mark : c = '?') : OfChar options c rest (.ok (anyChar, rest))
  | bracket {result : Except Failure (Token × List Char)} (mark : c = '[')
      (found : ofBracket options rest = result) : OfChar options c rest result
  | separator (plain : c ∉ ['*', '?', '[']) (separates : options.separator = some c) :
      OfChar options c rest (.ok (separator, rest))
  | literal (plain : c ∉ ['*', '?', '[']) (other : options.separator ≠ some c) :
      OfChar options c rest (.ok (literal c, rest))

/-- The ways to read a token, each with the conditions under which it is the one that is taken. -/
inductive Reads (options : Options) (inList : Bool) (c : Char) (rest : List Char) :
    Except Failure (Token × List Char) → Prop where
  | divider (inside : inList = true) (mark : c = '|') :
      Reads options inList c rest (.ok (divider, rest))
  | closing (inside : inList = true) (mark : c = ')') :
      Reads options inList c rest (.ok (closing, rest))
  | dangling (escapes : options.escapes = true) (mark : c = '\\') (last : rest = []) :
      Reads options inList c rest (.error ⟨.danglingEscape, [c]⟩)
  | escaped {d : Char} {after : List Char} (escapes : options.escapes = true) (mark : c = '\\')
      (next : rest = d :: after) : Reads options inList c rest (.ok (literal d, after))
  | opening {quantifier : Quantifier} {after : List Char}
      (stays : inList = true → c ≠ '|' ∧ c ≠ ')') (plain : options.escapes = true → c ≠ '\\')
      (found : opening? options c rest = some (quantifier, after)) :
      Reads options inList c rest (.ok (opening quantifier, after))
  | char {result : Except Failure (Token × List Char)}
      (stays : inList = true → c ≠ '|' ∧ c ≠ ')') (plain : options.escapes = true → c ≠ '\\')
      (apart : opening? options c rest = none) (found : ofChar options c rest = result) :
      Reads options inList c rest result

section

variable {options : Options} {inList : Bool} {c : Char} {rest after : List Char} {token : Token}
variable {result : Except Failure (Token × List Char)}

theorem ofBracket_iff : ofBracket options rest = result ↔ OfBracket options rest result := by
  constructor
  · rintro rfl
    unfold ofBracket
    split
    · next read =>
        split
        · next refuses => exact .refused read refuses
        · next allows => exact .empty read (by simp [allows])
        · next allows => exact .empty read (by simp [allows])
    · next filled read => exact .closed read filled
    · next read => exact .mistaken read
    · next read =>
        split
        · next refuses => exact .unclosed read refuses
        · next allows => exact .literal read allows
  · intro begins
    cases begins with
    | refused read refuses => simp only [ofBracket, read, refuses]
    | empty read allows =>
        cases left : options.emptyBracket with
        | reject => exact absurd left allows
        | drop | closingIsMember => simp only [ofBracket, read, left]
    | closed read filled =>
        obtain ⟨member, later, rfl⟩ := List.exists_cons_of_ne_nil filled
        simp only [ofBracket, read]
    | mistaken read => simp only [ofBracket, read]
    | unclosed read refuses => simp only [ofBracket, read, refuses]
    | literal read allows => simp only [ofBracket, read, allows]

theorem ofChar_iff : ofChar options c rest = result ↔ OfChar options c rest result := by
  constructor
  · rintro rfl
    unfold ofChar
    split
    · next mark => exact .star mark
    split
    · next mark => exact .anyChar mark
    split
    · next mark => exact .bracket mark rfl
    · next noStar noMark noBracket =>
        have plain : c ∉ ['*', '?', '['] := by simp [noStar, noMark, noBracket]
        split
        · next separates => exact .separator plain separates
        · next other => exact .literal plain other
  · intro begins
    cases begins with
    | star mark => subst mark; rfl
    | anyChar mark => subst mark; rfl
    | bracket mark found => subst mark; exact found
    | separator plain separates =>
        simp only [List.mem_cons, List.not_mem_nil, or_false, not_or] at plain
        simp only [ofChar, plain, separates, if_true, if_false]
    | literal plain other =>
        simp only [List.mem_cons, List.not_mem_nil, or_false, not_or] at plain
        simp only [ofChar, plain, other, if_false]

theorem read_of_plain (stays : inList = true → c ≠ '|' ∧ c ≠ ')')
    (plain : options.escapes = true → c ≠ '\\') :
    read options inList c rest =
      match opening? options c rest with
      | some (quantifier, after) => .ok (opening quantifier, after)
      | none => ofChar options c rest := by
  have noDivider : ¬(inList && c = '|') = true := by
    rw [Bool.and_eq_true, decide_eq_true_iff]
    exact fun both => (stays both.1).1 both.2
  have noClosing : ¬(inList && c = ')') = true := by
    rw [Bool.and_eq_true, decide_eq_true_iff]
    exact fun both => (stays both.1).2 both.2
  have noEscape : ¬(options.escapes && c = '\\') = true := by
    rw [Bool.and_eq_true, decide_eq_true_iff]
    exact fun both => plain both.1 both.2
  unfold read
  rw [if_neg noDivider, if_neg noClosing, if_neg noEscape]

theorem read_iff : read options inList c rest = result ↔ Reads options inList c rest result := by
  constructor
  · rintro rfl
    unfold read
    split
    · next both =>
        rw [Bool.and_eq_true, decide_eq_true_iff] at both
        exact .divider both.1 both.2
    split
    · next both =>
        rw [Bool.and_eq_true, decide_eq_true_iff] at both
        exact .closing both.1 both.2
    split
    · next both =>
        rw [Bool.and_eq_true, decide_eq_true_iff] at both
        split
        · exact .dangling both.1 both.2 rfl
        · exact .escaped both.1 both.2 rfl
    · next noDivider noClosing noEscape =>
        have stays (inside : inList = true) : c ≠ '|' ∧ c ≠ ')' :=
          ⟨fun mark => noDivider (by simp [inside, mark]),
            fun mark => noClosing (by simp [inside, mark])⟩
        have plain (escapes : options.escapes = true) : c ≠ '\\' :=
          fun mark => noEscape (by simp [escapes, mark])
        split
        · next found => exact .opening stays plain found
        · next apart => exact .char stays plain apart rfl
  · intro begins
    cases begins with
    | divider inside mark => subst inside mark; rfl
    | closing inside mark => subst inside mark; rfl
    | dangling escapes mark last => subst mark last; simp [read, escapes]
    | escaped escapes mark next => subst mark next; simp [read, escapes]
    | opening stays plain found => rw [read_of_plain stays plain, found]
    | char stays plain apart found =>
        rw [read_of_plain stays plain, apart]
        exact found

theorem opening?_eq_some_iff {quantifier : Quantifier} :
    opening? options c rest = some (quantifier, after) ↔
      options.patternLists = true ∧ Quantifier.ofSigil? c = some quantifier ∧
        rest = '(' :: after := by
  unfold opening?
  split
  · simp only [Option.ite_none_right_eq_some, Option.map_eq_some_iff, Prod.mk.injEq,
      List.cons.injEq, true_and]
    constructor
    · rintro ⟨listed, _, sigil, rfl, rfl⟩
      exact ⟨listed, sigil, rfl⟩
    · rintro ⟨listed, sigil, rfl⟩
      exact ⟨listed, quantifier, sigil, rfl, rfl⟩
  · next other =>
      refine iff_of_false (by simp) ?_
      rintro ⟨-, -, same⟩
      exact other after same

theorem length_of_opening {quantifier : Quantifier}
    (found : opening? options c rest = some (quantifier, after)) :
    after.length < rest.length := by
  obtain ⟨-, -, rfl⟩ := opening?_eq_some_iff.mp found
  exact Nat.lt_add_one _

theorem length_of_ofBracket (found : ofBracket options rest = .ok (token, after)) :
    after.length ≤ rest.length := by
  cases ofBracket_iff.mp found with
  | empty read => exact Nat.le_of_lt (Bracket.length_of_read read)
  | closed read => exact Nat.le_of_lt (Bracket.length_of_read read)
  | literal => exact Nat.le_refl _

theorem length_of_ofChar (found : ofChar options c rest = .ok (token, after)) :
    after.length ≤ rest.length := by
  cases ofChar_iff.mp found with
  | bracket _ found => exact length_of_ofBracket found
  | star | anyChar | separator | literal => exact Nat.le_refl _

theorem length_of_read (found : read options inList c rest = .ok (token, after)) :
    after.length ≤ rest.length := by
  cases read_iff.mp found with
  | divider | closing => exact Nat.le_refl _
  | escaped _ _ next =>
      rw [next]
      exact Nat.le_succ _
  | opening _ _ found => exact Nat.le_of_lt (length_of_opening found)
  | char _ _ _ found => exact length_of_ofChar found

end

end Token

end Glob
