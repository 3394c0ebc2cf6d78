import Glob.Proofs.Reading
import Glob.Proofs.Remainder

/-!
Where a mistake points. The place of every mistake in a pattern is that of its cause: from there on
the pattern begins with what is wrong, and the options are such that it is wrong.
-/

namespace Glob

/-- The ways to write a character that bounds a range. -/
inductive Spelling (escapes : Bool) (c : Char) : List Char → Prop where
  | plain (itself : ¬(escapes = true ∧ c = '\\')) : Spelling escapes c [c]
  | escaped (pairs : escapes = true) : Spelling escapes c ['\\', c]
  | element {mark : Char} (marks : mark = '.' ∨ mark = '=') :
      Spelling escapes c ['[', mark, c, mark, ']']

def OpensList (options : Options) (text : List Char) : Prop :=
  options.patternLists = true ∧ ∃ sigil ∈ ['*', '?', '+', '@', '!'], [sigil, '('] <+: text

/-- Whether a text begins with the cause of a mistake, and the options make it one. -/
def Mistake.CausedBy (options : Options) (text : List Char) : Mistake → Prop
  | danglingEscape => options.escapes = true ∧ text = ['\\']
  | listNotClosed | listEmpty => OpensList options text
  | bracketEmpty => options.emptyBracket = .reject ∧ ['['] <+: text
  | bracketNotClosed =>
    options.unclosedBracket = .reject ∧ ['['] <+: text ∨
      options.edgeHyphens = false ∧ ['-', ']'] <+: text
  | rangeWithoutLowerBound => options.edgeHyphens = false ∧ ['-'] <+: text
  | rangeOutOfOrder =>
    ∃ lower upper first last, Spelling options.escapes lower first ∧
      Spelling options.escapes upper last ∧ upper < lower ∧ first ++ '-' :: last <+: text
  | unknownClass name =>
    (∀ named : PosixClass, named.name ≠ name) ∧
      '[' :: ':' :: name.toList ++ [':', ']'] <+: text
  | longElement name =>
    name.length ≠ 1 ∧ ∃ mark, (mark = '.' ∨ mark = '=') ∧
      '[' :: mark :: name.toList ++ [mark, ']'] <+: text

def Failure.PointsAtCause (options : Options) (failure : Failure) : Prop :=
  failure.mistake.CausedBy options failure.rest

variable {options : Options} {failure : Failure}

theorem Mistake.CausedBy.ne_nil {mistake : Mistake} {text : List Char}
    (caused : mistake.CausedBy options text) : text ≠ [] := by
  rintro rfl
  cases mistake <;> simp [CausedBy, OpensList] at caused

theorem PosixClass.name_ne_of_ofName {text : String} (unknown : ofName? text = none)
    (named : PosixClass) : named.name ≠ text := by
  have listed : named ∈ all := by cases named <;> decide
  simpa using List.find?_eq_none.mp unknown named listed

theorem Quantifier.mem_of_ofSigil {c : Char} {quantifier : Quantifier}
    (found : ofSigil? c = some quantifier) : c ∈ ['*', '?', '+', '@', '!'] := by
  unfold ofSigil? at found
  split at found
  case h_6 => cases found
  all_goals decide

namespace Bracket

variable {mark c : Char} {text name after : List Char} {first : Bool}

theorem eq_of_splitAtMark (found : splitAtMark? mark text = some (name, after)) :
    text = name ++ mark :: ']' :: after := by
  fun_induction splitAtMark? mark text generalizing name with
  | case1 c d rest closes =>
      cases found
      obtain ⟨rfl, rfl⟩ : c = mark ∧ d = ']' := by simpa using closes
      rfl
  | case2 c d rest _ ih =>
      obtain ⟨⟨later, _⟩, found, same⟩ := Option.map_eq_some_iff.mp found
      cases same
      rw [ih found, List.cons_append]
  | case3 => cases found

theorem exists_spelling_of_readBound {escapes : Bool}
    (found : readBound escapes text = .ok (c, after)) :
    ∃ written, Spelling escapes c written ∧ text = written ++ after := by
  unfold readBound halt at found
  split at found
  case h_1 => cases found
  case h_2 mark rest =>
    split at found
    · next marks =>
        split at found
        · cases found
        · next named =>
            cases found
            exact ⟨_, .element (by simpa using marks), by rw [eq_of_splitAtMark named]; rfl⟩
        · cases found
    · cases found
      exact ⟨['['], .plain (by simp), rfl⟩
  case h_3 rest =>
    split at found
    · next pairs =>
        split at found
        · cases found
        · cases found
          exact ⟨_, .escaped pairs, rfl⟩
    · next alone =>
        cases found
        exact ⟨_, .plain fun both => alone both.1, rfl⟩
  case h_4 d rest _ notEscape =>
    cases found
    exact ⟨[c], .plain fun both => notEscape both.2, rfl⟩

theorem pointsAtCause_of_readBound
    (failed : readBound options.escapes text = .error (.failure failure)) :
    failure.PointsAtCause options := by
  unfold readBound halt at failed
  split at failed
  case h_1 => cases failed
  case h_2 mark rest =>
    split at failed
    · next marks =>
        split at failed
        · cases failed
        · cases failed
        · next name after other named =>
            cases failed
            refine ⟨?_, mark, by simpa using marks, after, ?_⟩
            · rw [String.length_ofList]
              intro single
              obtain ⟨c, rfl⟩ := List.length_eq_one_iff.mp single
              exact other c rfl
            · rw [String.toList_ofList, eq_of_splitAtMark named]
              simp
    · cases failed
  case h_3 rest =>
    split at failed
    · next pairs =>
        split at failed
        · cases failed
          exact ⟨pairs, rfl⟩
        · cases failed
    · cases failed
  case h_4 => cases failed

theorem pointsAtCause_of_readMember
    (failed : readMember options text = .error (.failure failure)) :
    failure.PointsAtCause options := by
  unfold readMember halt at failed
  split at failed
  case h_1 rest =>
    split at failed
    · cases failed
    · next name after named =>
        split at failed
        · next unknown =>
            cases failed
            refine ⟨PosixClass.name_ne_of_ofName unknown, after, ?_⟩
            rw [String.toList_ofList, eq_of_splitAtMark named]
            simp
        · cases failed
  case h_2 rest =>
    split at failed
    · cases failed
    · next refused =>
        cases failed
        exact ⟨by simpa using refused, rest, rfl⟩
  case h_3 =>
    split at failed
    · next reason read =>
        cases failed
        exact pointsAtCause_of_readBound read
    · next lower rest read =>
        split at failed
        · cases failed
        · next refused =>
            cases failed
            exact .inr ⟨by simpa using refused, rest, rfl⟩
    · next lower rest _ read =>
        split at failed
        · next reason readLast =>
            cases failed
            exact pointsAtCause_of_readBound readLast
        · next upper after readLast =>
            split at failed
            · cases failed
            · next unordered =>
                cases failed
                obtain ⟨first, spelled, rfl⟩ := exists_spelling_of_readBound read
                obtain ⟨last, spelledLast, rfl⟩ := exists_spelling_of_readBound readLast
                refine ⟨lower, upper, first, last, spelled, spelledLast, ?_, after, ?_⟩
                · exact Char.not_le.mp unordered
                · simp
    · cases failed

theorem pointsAtCause_of_readMembers
    (failed : readMembers options first text = .error (.failure failure)) :
    failure.PointsAtCause options := by
  fun_induction readMembers options first text with
  | case1 => cases failed
  | case2 => cases failed
  | case3 first c rest _ reason read =>
      cases failed
      exact pointsAtCause_of_readMember read
  | case4 first c rest _ members middle _ reason more ih =>
      cases failed
      exact ih more
  | case5 => cases failed

theorem pointsAtCause_of_read (failed : read options text = .error (.failure failure)) :
    failure.PointsAtCause options := by
  obtain ⟨inside, -, mistaken⟩ := exists_readMembers_of_read_failure failed
  exact pointsAtCause_of_readMembers mistaken

end Bracket

namespace Token

variable {inList : Bool} {c : Char} {rest after : List Char} {quantifier : Quantifier}

theorem pointsAtCause_of_ofBracket (failed : ofBracket options rest = .error failure) :
    failure.PointsAtCause options := by
  cases ofBracket_iff.mp failed with
  | refused _ refuses => exact ⟨refuses, rest, rfl⟩
  | mistaken read => exact Bracket.pointsAtCause_of_read read
  | unclosed _ refuses => exact .inl ⟨refuses, rest, rfl⟩

theorem pointsAtCause_of_ofChar (failed : ofChar options c rest = .error failure) :
    failure.PointsAtCause options := by
  cases ofChar_iff.mp failed with
  | bracket _ failed => exact pointsAtCause_of_ofBracket failed

theorem pointsAtCause_of_read (failed : read options inList c rest = .error failure) :
    failure.PointsAtCause options := by
  cases read_iff.mp failed with
  | dangling escapes mark => exact ⟨escapes, congrArg (fun c => [c]) mark⟩
  | char _ _ _ failed => exact pointsAtCause_of_ofChar failed

theorem opensList_of_opening (found : opening? options c rest = some (quantifier, after)) :
    OpensList options (c :: rest) := by
  obtain ⟨listed, sigil, rfl⟩ := opening?_eq_some_iff.mp found
  exact ⟨listed, c, Quantifier.mem_of_ofSigil sigil, after, rfl⟩

theorem ofChar_ne_opening : ofChar options c rest ≠ .ok (.opening quantifier, after) := by
  intro found
  cases ofChar_iff.mp found with
  | bracket _ found => cases ofBracket_iff.mp found

theorem opensList_of_read (found : read options inList c rest = .ok (.opening quantifier, after)) :
    OpensList options (c :: rest) := by
  cases read_iff.mp found with
  | opening _ _ found => exact opensList_of_opening found
  | char _ _ _ found => exact absurd found ofChar_ne_opening

end Token

namespace Reader

variable {reader : Reader} {text : List Char}

def OpenedByLists (options : Options) (reader : Reader) : Prop :=
  ∀ list ∈ reader.lists, OpensList options list.sigil

theorem pointsAtCause_of_run (opened : reader.OpenedByLists options)
    (failed : reader.run options text = .error failure) : failure.PointsAtCause options := by
  -- Every open list has been begun by a token, so a mistake about a list has its cause there.
  fun_induction run options reader text with
  | case1 reader =>
      obtain ⟨list, member, rfl⟩ := exists_list_of_finish_error failed
      exact opened list member
  | case2 reader c rest reason read =>
      cases failed
      exact Token.pointsAtCause_of_read read
  | case3 reader c rest token after read reason taken =>
      cases failed
      obtain ⟨list, member, rfl⟩ := exists_list_of_take_error taken
      exact opened list member
  | case4 reader c rest token after read next taken ih =>
      refine ih (forall_sigil_of_take (OpensList options) opened ?_ taken) failed
      rintro quantifier rfl
      exact Token.opensList_of_read read

end Reader

theorem Piece.pointsAtCause_of_ofText {text : List Char}
    (failed : ofText options text = .error failure) : failure.PointsAtCause options :=
  Reader.pointsAtCause_of_run (by simp [Reader.OpenedByLists]) failed

namespace Pattern

variable {source : String} {error : PatternError}

theorem exists_failure_of_mapM {texts : List (List Char)}
    (failed : texts.mapM (readAlternative options) = .error error) :
    ∃ text ∈ texts, ∃ failure, Piece.ofText options text = .error failure ∧
      error = failure.within text := by
  induction texts with
  | nil => cases failed
  | cons text rest ih =>
      rw [List.mapM_cons] at failed
      cases read : Piece.ofText options text with
      | error failure =>
          rw [readAlternative, read] at failed
          cases failed
          exact ⟨text, List.mem_cons_self, failure, read, rfl⟩
      | ok pieces =>
          rw [readAlternative, read] at failed
          cases others : rest.mapM (readAlternative options) with
          | error mistake =>
              rw [others] at failed
              cases failed
              obtain ⟨later, member, found⟩ := ih others
              exact ⟨later, List.mem_cons_of_mem text member, found⟩
          | ok alternatives =>
              rw [others] at failed
              cases failed

theorem exists_failure_of_compile (failed : compile options source = .error error) :
    ∃ text ∈ expansions options source, ∃ failure, Piece.ofText options text = .error failure ∧
      error = failure.within text := by
  apply exists_failure_of_mapM
  unfold compile at failed
  cases read : (expansions options source).mapM (readAlternative options) with
  | error mistake =>
      rw [read] at failed
      cases failed
      rfl
  | ok alternatives =>
      rw [read] at failed
      cases failed

/-- Every error points at its cause: it names one of the texts that the pattern stands for, and a
place between two characters of it, before its end, from which on the text begins with what is
wrong. -/
theorem pointsAtCause_of_compile (failed : compile options source = .error error) :
    error.pattern.toList ∈ expansions options source ∧
      ∃ before rest : String, error.pattern = before ++ rest ∧
        error.location = before.utf8ByteSize ∧ error.location < error.pattern.utf8ByteSize ∧
          error.mistake.CausedBy options rest.toList := by
  obtain ⟨text, member, failure, read, rfl⟩ := exists_failure_of_compile failed
  obtain ⟨before, rfl⟩ := Piece.suffix_of_ofText_error read
  have caused := Piece.pointsAtCause_of_ofText read
  have size : byteSize before = (String.ofList before).utf8ByteSize := by
    rw [← byteSize_toList, String.toList_ofList]
  have place : (failure.within (before ++ failure.rest)).location = byteSize before := by
    simp only [Failure.within, byteSize_append]
    omega
  refine ⟨by rwa [Failure.within, String.toList_ofList], String.ofList before,
    String.ofList failure.rest, String.ofList_append, place.trans size, ?_, ?_⟩
  · calc
      (failure.within (before ++ failure.rest)).location = byteSize before := place
      _ < byteSize before + byteSize failure.rest :=
        Nat.lt_add_of_pos_right (byteSize_pos caused.ne_nil)
      _ = byteSize (before ++ failure.rest) := (byteSize_append before failure.rest).symm
      _ = (String.ofList (before ++ failure.rest)).utf8ByteSize := by
        rw [← byteSize_toList, String.toList_ofList]
  · rw [String.toList_ofList]
    exact caused

/-- Bounds that are written as collating elements, in a list in the second expansion. -/
theorem pointsAtCause_of_compile_elements :
    let options : Options := { braces := true }
    let whole := "é@(b|[[.x.]-[=c=]])"
    compile options "é\x7ba,@(b|[[.x.]-[=c=]])\x7d" = .error ⟨whole, 7, .rangeOutOfOrder⟩ ∧
      whole.toList ∈ expansions options "é\x7ba,@(b|[[.x.]-[=c=]])\x7d" ∧
        ∃ before rest : String, whole = before ++ rest ∧ 7 = before.utf8ByteSize ∧
          7 < whole.utf8ByteSize ∧ Mistake.rangeOutOfOrder.CausedBy options rest.toList :=
  have failed : compile { braces := true } "é\x7ba,@(b|[[.x.]-[=c=]])\x7d" =
      .error ⟨"é@(b|[[.x.]-[=c=]])", 7, .rangeOutOfOrder⟩ := by
    with_unfolding_all rfl
  ⟨failed, pointsAtCause_of_compile failed⟩

end Pattern

end Glob
