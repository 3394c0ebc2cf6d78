import Glob.CharClass
import Glob.Options
import Glob.Pattern.Mistake

/-!
Reading bracket expressions. Every reader takes the characters that are left and returns what it
read with what it left; what it leaves is shorter.
-/

namespace Glob

namespace Bracket

/-- Why a bracket expression cannot be read to its end. -/
inductive Halt where
  /-- The pattern ends first. -/
  | unclosed
  | failure (failure : Failure)
  deriving DecidableEq, Repr

def halt {α : Type} (mistake : Mistake) (rest : List Char) : Except Halt α :=
  .error (.failure ⟨mistake, rest⟩)

/-- The text before the first `mark` that a `]` follows, and what follows both. -/
def splitAtMark? (mark : Char) : List Char → Option (List Char × List Char)
  | c :: d :: rest =>
    if c = mark && d = ']' then some ([], rest)
    else (splitAtMark? mark (d :: rest)).map fun (text, after) => (c :: text, after)
  | _ => none

/-- A character that may bound a range: any character, escaped or not, or a collating symbol `[.x.]`
or equivalence class `[=x=]`, which stand for their one character. -/
def readBound (escapes : Bool) : List Char → Except Halt (Char × List Char)
  | [] => .error .unclosed
  | '[' :: mark :: rest =>
    if mark = '.' || mark = '=' then
      match splitAtMark? mark rest with
      | none => .error .unclosed
      | some ([c], after) => .ok (c, after)
      | some (name, _) => halt (.longElement (String.ofList name)) ('[' :: mark :: rest)
    else .ok ('[', mark :: rest)
  | '\\' :: rest =>
    if escapes then
      match rest with
      | [] => halt .danglingEscape ['\\']
      | c :: after => .ok (c, after)
    else .ok ('\\', rest)
  | c :: rest => .ok (c, rest)

/-- What a bracket expression has next: a named class, a range, a hyphen or a character. A hyphen
before the closing bracket is read together with the character before it. -/
def readMember (options : Options) (text : List Char) : Except Halt (List CharClass × List Char) :=
  match text with
  | '[' :: ':' :: rest =>
    match splitAtMark? ':' rest with
    | none => .error .unclosed
    | some (name, after) =>
      match PosixClass.ofName? (String.ofList name) with
      | none => halt (.unknownClass (String.ofList name)) text
      | some named => .ok ([.named named], after)
  | '-' :: rest =>
    if options.edgeHyphens then .ok ([.single '-'], rest)
    else halt .rangeWithoutLowerBound text
  | _ =>
    match readBound options.escapes text with
    | .error reason => .error reason
    | .ok (lower, '-' :: ']' :: rest) =>
      if options.edgeHyphens then .ok ([.single lower, .single '-'], ']' :: rest)
      else halt .bracketNotClosed ('-' :: ']' :: rest)
    | .ok (lower, '-' :: rest) =>
      match readBound options.escapes rest with
      | .error reason => .error reason
      | .ok (upper, after) =>
        if lower ≤ upper then .ok ([.range lower upper], after)
        else halt .rangeOutOfOrder text
    | .ok (lower, rest) => .ok ([.single lower], rest)

theorem length_of_splitAtMark {mark : Char} {text name after : List Char}
    (found : splitAtMark? mark text = some (name, after)) : after.length < text.length := by
  fun_induction splitAtMark? mark text generalizing name with
  | case1 c d rest =>
    cases found
    simp only [List.length_cons]
    omega
  | case2 c d rest _ ih =>
    obtain ⟨⟨_, _⟩, found', same⟩ := Option.map_eq_some_iff.1 found
    cases same
    have := ih found'
    simp only [List.length_cons] at this ⊢
    omega
  | case3 => cases found

theorem length_of_readBound {escapes : Bool} {text after : List Char} {c : Char}
    (found : readBound escapes text = .ok (c, after)) : after.length < text.length := by
  unfold readBound halt at found
  split at found
  case h_1 => cases found
  case h_2 mark rest =>
    split at found
    · split at found
      · cases found
      · next named =>
          cases found
          have shorter := length_of_splitAtMark named
          simp only [List.length_cons]
          omega
      · cases found
    · cases found
      exact Nat.lt_add_one _
  case h_3 rest =>
    split at found
    · split at found
      · cases found
      · cases found
        simp only [List.length_cons]
        omega
    · cases found
      exact Nat.lt_add_one _
  case h_4 =>
    cases found
    exact Nat.lt_add_one _

theorem length_of_readMember {options : Options} {text after : List Char} {members : List CharClass}
    (found : readMember options text = .ok (members, after)) : after.length < text.length := by
  unfold readMember halt at found
  split at found
  case h_1 rest =>
    split at found
    · cases found
    · next named =>
        split at found
        · cases found
        · cases found
          have shorter := length_of_splitAtMark named
          simp only [List.length_cons]
          omega
  case h_2 rest =>
    split at found
    · cases found
      exact Nat.lt_add_one _
    · cases found
  case h_3 =>
    split at found
    · cases found
    · next bound =>
        have shorter := length_of_readBound bound
        split at found
        · cases found
          simp only [List.length_cons] at shorter ⊢
          omega
        · cases found
    · next bound =>
        have shorter := length_of_readBound bound
        split at found
        · cases found
        · next last =>
            have least := length_of_readBound last
            split at found
            · cases found
              simp only [List.length_cons] at shorter
              omega
            · cases found
    · next bound =>
        cases found
        exact length_of_readBound bound

section

variable {options : Options} {text after : List Char} {lower : Char}
  (noClass : ∀ rest, text ≠ '[' :: ':' :: rest) (noHyphen : ∀ rest, text ≠ '-' :: rest)

include noClass noHyphen

theorem readMember_eq_single (bound : readBound options.escapes text = .ok (lower, after))
    (alone : ∀ rest, after ≠ '-' :: rest) :
    readMember options text = .ok ([.single lower], after) := by
  rw [readMember.eq_3 options text noClass noHyphen, bound]
  split
  · next same => cases same
  · next rest same =>
      cases same
      exact absurd rfl (alone (']' :: rest))
  · next rest _ same =>
      cases same
      exact absurd rfl (alone rest)
  · next same =>
      cases same
      rfl

theorem readMember_eq_range (bound : readBound options.escapes text = .ok (lower, '-' :: after))
    (goesOn : ∀ rest, after ≠ ']' :: rest) :
    readMember options text =
      match readBound options.escapes after with
      | .error reason => .error reason
      | .ok (upper, rest) =>
        if lower ≤ upper then .ok ([.range lower upper], rest) else halt .rangeOutOfOrder text := by
  rw [readMember.eq_3 options text noClass noHyphen, bound]
  split
  · next same => cases same
  · next rest same =>
      cases same
      exact absurd rfl (goesOn rest)
  · next same =>
      cases same
      rfl
  · next hyphen same =>
      cases same
      exact (hyphen _ rfl).elim

end

/-- The members up to the bracket that closes the expression, and what follows it. A closing bracket
in first place may be a member. -/
def readMembers (options : Options) (first : Bool) (text : List Char) :
    Except Halt (List CharClass × List Char) :=
  match text with
  | [] => .error .unclosed
  | c :: rest =>
    if c = ']' && !(first && options.emptyBracket == .closingIsMember) then .ok ([], rest)
    else
      match _found : readMember options (c :: rest) with
      | .error reason => .error reason
      | .ok (members, middle) =>
        match readMembers options false middle with
        | .error reason => .error reason
        | .ok (later, after) => .ok (members ++ later, after)
termination_by text.length
decreasing_by exact length_of_readMember _found

/-- A bracket expression after its `[`: whether it is negated, its members, and what follows. -/
def read (options : Options) : List Char → Except Halt (Bool × List CharClass × List Char)
  | [] => .error .unclosed
  | c :: rest =>
    let negated := options.negation.isNegation c
    match readMembers options true (if negated then rest else c :: rest) with
    | .error reason => .error reason
    | .ok (members, after) => .ok (negated, members, after)

theorem length_of_readMembers {options : Options} {first : Bool} {members : List CharClass}
    {text after : List Char} (found : readMembers options first text = .ok (members, after)) :
    after.length < text.length := by
  fun_induction readMembers options first text generalizing members with
  | case1 => cases found
  | case2 =>
      cases found
      exact Nat.lt_add_one _
  | case3 => cases found
  | case4 => cases found
  | case5 first c rest _ members middle read later after' more ih =>
      cases found
      have := ih more
      have := length_of_readMember read
      omega

theorem exists_readMembers_of_read {options : Options} {negated : Bool} {members : List CharClass}
    {text after : List Char} (found : read options text = .ok (negated, members, after)) :
    ∃ inside, inside <:+ text ∧ readMembers options true inside = .ok (members, after) := by
  cases text with
  | nil => cases found
  | cons c rest =>
      simp only [read] at found
      split at found
      · cases found
      · next all =>
          cases found
          refine ⟨_, ?_, all⟩
          split
          · exact List.suffix_cons c rest
          · exact List.suffix_refl _

theorem exists_readMembers_of_read_failure {options : Options} {text : List Char}
    {failure : Failure} (failed : read options text = .error (.failure failure)) :
    ∃ inside, inside <:+ text ∧ readMembers options true inside = .error (.failure failure) := by
  cases text with
  | nil => cases failed
  | cons c rest =>
      simp only [read] at failed
      split at failed
      · next mistaken =>
          cases failed
          refine ⟨_, ?_, mistaken⟩
          split
          · exact List.suffix_cons c rest
          · exact List.suffix_refl _
      · cases failed

theorem length_of_read {options : Options} {negated : Bool} {members : List CharClass}
    {text after : List Char} (found : read options text = .ok (negated, members, after)) :
    after.length < text.length := by
  obtain ⟨inside, least, all⟩ := exists_readMembers_of_read found
  exact Nat.lt_of_lt_of_le (length_of_readMembers all) least.length_le

end Bracket

end Glob
