import Mathlib.Data.List.Infix
import Glob.Proofs.OpenBracket
import Glob.Proofs.Seam

/-!
Brackets that are not closed and are to stand for themselves. Such a pattern is read like the one
with its brackets escaped, unless the ranges after one of them are wrong: then it is refused, though
none of its brackets is the beginning of a bracket expression.
-/

namespace Glob

open Glyph

def Glyph.escapeBracket : Glyph → Glyph
  | .plain '[' => .escaped '['
  | glyph => glyph

/-- A backslash before every `[` that has none. -/
def escapeBrackets (chars : List Char) : List Char :=
  text ((ofText true chars).map escapeBracket)

variable {options : Options} {c : Char} {chars rest after : List Char}

theorem Glyph.escapeBracket_of_ne {glyph : Glyph} (other : glyph ≠ .plain '[') :
    glyph.escapeBracket = glyph := by
  unfold escapeBracket
  split
  · exact absurd rfl other
  · rfl

theorem escapeBrackets_bracket (rest : List Char) :
    escapeBrackets ('[' :: rest) = '\\' :: '[' :: escapeBrackets rest := by
  rw [escapeBrackets, ofText_cons (by decide)]
  rfl

theorem escapeBrackets_escaped (c : Char) (rest : List Char) :
    escapeBrackets ('\\' :: c :: rest) = '\\' :: c :: escapeBrackets rest :=
  rfl

theorem escapeBrackets_cons (unescaping : c ≠ '\\') (other : c ≠ '[') :
    escapeBrackets (c :: rest) = c :: escapeBrackets rest := by
  rw [escapeBrackets, ofText_cons unescaping, List.map_cons, escapeBracket_of_ne (by simpa),
    text_cons]
  rfl

theorem ofText_escapeBrackets (chars : List Char) :
    ofText true (escapeBrackets chars) = (ofText true chars).map escapeBracket := by
  fun_induction ofText true chars with
  | case1 => rfl
  | case2 c rest _ ih =>
      rw [escapeBrackets_escaped, ofText, ih]
      rfl
  | case3 c rest single => exact absurd rfl single
  | case4 c rest unpaired ih =>
      by_cases bracket : c = '['
      · subst bracket
        rw [escapeBrackets_bracket, ofText, ih]
        rfl
      · by_cases mark : c = '\\'
        · cases rest with
          | nil => subst mark; rfl
          | cons next later => exact (unpaired next later mark rfl).elim
        · rw [escapeBrackets_cons mark bracket, ofText_cons mark, ih, List.map_cons,
            escapeBracket_of_ne (by simpa)]

theorem bracket_notMem_ofText_escapeBrackets (chars : List Char) :
    .plain '[' ∉ ofText true (escapeBrackets chars) := by
  rw [ofText_escapeBrackets]
  intro present
  obtain ⟨glyph, _, same⟩ := List.mem_map.mp present
  unfold escapeBracket at same
  split at same
  · cases same
  · next other => exact other same

theorem endsInEscape_escapeBrackets (dangling : endsInEscape true chars = true) :
    endsInEscape true (escapeBrackets chars) = true := by
  simp only [endsInEscape, Bool.true_and, beq_iff_eq] at dangling ⊢
  rw [ofText_escapeBrackets, List.getLast?_map, dangling]
  rfl

theorem head?_escapeBrackets (chars : List Char) :
    (escapeBrackets chars).head? = some '(' ↔ chars.head? = some '(' := by
  rcases chars with _ | ⟨c, rest⟩
  · rfl
  · by_cases bracket : c = '['
    · subst bracket
      rw [escapeBrackets_bracket]
      simp
    · by_cases mark : c = '\\'
      · subst mark
        cases rest <;> simp [escapeBrackets, ofText, escapeBracket, text, Glyph.chars]
      · rw [escapeBrackets_cons mark bracket, List.head?_cons, List.head?_cons]

namespace Token

variable {inList : Bool} {token : Token}

theorem opening_escapeBrackets (options : Options) (c : Char) (rest : List Char) :
    opening? options c (escapeBrackets rest) =
      (opening? options c rest).map fun (quantifier, after) =>
        (quantifier, escapeBrackets after) := by
  by_cases parenthesis : rest.head? = some '('
  · obtain ⟨later, rfl⟩ := List.head?_eq_some_iff.mp parenthesis
    rw [escapeBrackets_cons (by decide) (by decide)]
    simp only [opening?]
    split
    · rw [Option.map_map]
      rfl
    · rfl
  · have apart := mt (head?_escapeBrackets rest).mp parenthesis
    rw [opening?_eq_none parenthesis, opening?_eq_none apart]
    rfl

theorem read_escapeBrackets_of_ne (escapes : options.escapes = true) (other : c ≠ '[')
    (found : read options inList c rest = .ok (token, after)) :
    ∃ written, escapeBrackets (c :: rest) = c :: written ∧
      read options inList c written = .ok (token, escapeBrackets after) := by
  by_cases mark : c = '\\'
  · subst mark
    cases rest with
    | nil => simp [read, escapes] at found
    | cons d later =>
        rw [read_escaped escapes] at found
        cases found
        exact ⟨_, escapeBrackets_escaped d after, read_escaped escapes inList d _⟩
  · refine ⟨_, escapeBrackets_cons mark other, ?_⟩
    exact read_map escapeBrackets (absurd · other) (fun _ _ same => absurd same mark)
      (opening_escapeBrackets options c rest) found

theorem ofChar_ne_error {failure : Failure} (other : c ≠ '[') :
    ofChar options c rest ≠ .error failure := by
  intro failed
  cases ofChar_iff.mp failed with
  | bracket mark => exact other mark

theorem read_error_of_ne {failure : Failure} (other : c ≠ '[')
    (failed : read options inList c rest = .error failure) :
    c = '\\' ∧ rest = [] ∧ failure = ⟨.danglingEscape, ['\\']⟩ := by
  cases read_iff.mp failed with
  | dangling _ mark last => exact ⟨mark, last, by rw [mark]⟩
  | char _ _ _ failed => exact absurd failed (ofChar_ne_error other)

theorem eq_of_ofChar (other : c ≠ '[') (found : ofChar options c rest = .ok (token, after)) :
    rest = after := by
  cases ofChar_iff.mp found with
  | bracket mark => exact absurd mark other
  | star | anyChar | separator | literal => rfl

theorem eq_of_read_of_ne (unescaping : c ≠ '\\') (other : c ≠ '[')
    (found : read options inList c rest = .ok (token, after)) :
    rest = after ∨ rest = '(' :: after := by
  cases read_iff.mp found with
  | divider | closing => exact .inl rfl
  | escaped _ mark => exact absurd mark unescaping
  | opening _ _ found => exact .inr (opening?_eq_some_iff.mp found).2.2
  | char _ _ _ found => exact .inl (eq_of_ofChar other found)

theorem exists_glyphs_of_read (escapes : options.escapes = true) (other : c ≠ '[')
    (found : read options inList c rest = .ok (token, after)) :
    ∃ glyphs, ofText true (c :: rest) = glyphs ++ ofText true after ∧
      .plain '[' ∉ glyphs ∧ .plain '\\' ∉ glyphs := by
  by_cases mark : c = '\\'
  · subst mark
    cases rest with
    | nil => simp [read, escapes] at found
    | cons d later =>
        rw [read_escaped escapes] at found
        cases found
        exact ⟨[.escaped d], rfl, by simp, by simp⟩
  · rw [ofText_cons mark]
    rcases eq_of_read_of_ne mark other found with rfl | rfl
    · exact ⟨[.plain c], rfl, by simpa using other.symm, by simpa using Ne.symm mark⟩
    · refine ⟨[.plain c, .plain '('], ?_, by simpa using other.symm, by simpa using Ne.symm mark⟩
      rw [ofText_cons (by decide)]
      rfl

theorem endsInEscape_eq_of_read (escapes : options.escapes = true) (other : c ≠ '[')
    (found : read options inList c rest = .ok (token, after)) :
    endsInEscape true (c :: rest) = endsInEscape true after := by
  obtain ⟨glyphs, whole, -, paired⟩ := exists_glyphs_of_read escapes other found
  have last : glyphs.getLast? ≠ some (.plain '\\') := fun same =>
    paired (List.mem_of_getLast? same)
  simp only [endsInEscape, whole, List.getLast?_append]
  cases (ofText true after).getLast? <;> simp [last]

theorem read_eq_ofBracket (options : Options) (inList : Bool) (rest : List Char) :
    read options inList '[' rest = ofBracket options rest := by
  have unopened : opening? options '[' rest = none := by
    unfold opening?
    split <;> simp [Quantifier.ofSigil?]
  simp [read, ofChar, unopened]

section Unclosed

variable (escapes : options.escapes = true) (asked : options.unclosedBracket = .literal)

include escapes asked

theorem read_bracket_of_ok (unclosed : ']' ∉ rest)
    (found : read options inList '[' rest = .ok (token, after)) :
    token = literal '[' ∧ after = rest ∧
      Bracket.mistakeAfter? options (ofText true rest) = none := by
  obtain ⟨reason, failed, halts⟩ := Bracket.read_halts escapes unclosed
  rw [read_eq_ofBracket, ofBracket, failed] at found
  generalize Bracket.mistakeAfter? options (ofText true rest) = mistake at halts
  cases halts with
  | wrong mistake place => cases found
  | inEscape dangling => cases found
  | unclosed =>
      simp only [asked] at found
      cases found
      exact ⟨rfl, rfl, rfl⟩

theorem read_bracket_of_error {failure : Failure} (unclosed : ']' ∉ rest)
    (failed : read options inList '[' rest = .error failure) :
    Bracket.mistakeAfter? options (ofText true rest) = some failure.mistake ∨
      endsInEscape true rest = true ∧ failure.mistake = .danglingEscape := by
  obtain ⟨reason, halted, halts⟩ := Bracket.read_halts escapes unclosed
  rw [read_eq_ofBracket, ofBracket, halted] at failed
  generalize Bracket.mistakeAfter? options (ofText true rest) = mistake at halts
  cases halts with
  | wrong mistake place => cases failed; exact .inl rfl
  | inEscape dangling => cases failed; exact .inr ⟨dangling, rfl⟩
  | unclosed =>
      simp only [asked] at failed
      cases failed

theorem read_escapeBrackets (unclosed : ']' ∉ rest)
    (found : read options inList c rest = .ok (token, after)) :
    ∃ d written, escapeBrackets (c :: rest) = d :: written ∧
      read options inList d written = .ok (token, escapeBrackets after) := by
  by_cases bracket : c = '['
  · subst bracket
    obtain ⟨rfl, rfl, -⟩ := read_bracket_of_ok escapes asked unclosed found
    exact ⟨_, _, escapeBrackets_bracket after, read_escaped escapes inList '[' _⟩
  · exact ⟨c, read_escapeBrackets_of_ne escapes bracket found⟩

theorem suffix_ofText_of_read (unclosed : ']' ∉ rest)
    (found : read options inList c rest = .ok (token, after)) :
    ofText true after <:+ ofText true (c :: rest) := by
  by_cases bracket : c = '['
  · subst bracket
    obtain ⟨-, rfl, -⟩ := read_bracket_of_ok escapes asked unclosed found
    rw [ofText_cons (by decide)]
    exact List.suffix_cons _ _
  · obtain ⟨glyphs, whole, -, -⟩ := exists_glyphs_of_read escapes bracket found
    exact ⟨glyphs, whole.symm⟩

end Unclosed

end Token

namespace Reader

variable {reader next : Reader} {token : Token} {text : List Char} {failure : Failure}

theorem run_of_take_error
    (found : Token.read options (!reader.lists.isEmpty) c rest = .ok (token, after))
    (failed : reader.take options token (c :: rest) = .error failure) :
    reader.run options (c :: rest) = .error failure := by
  rw [run, found]
  simp only
  rw [failed]

/-- What can be wrong with a text without brackets: a backslash at its end is always wrong, though a
list may be found to be empty before, and what is not closed is a list. -/
theorem run_of_flat (escapes : options.escapes = true) (reader : Reader)
    (flat : .plain '[' ∉ ofText true text) :
    match run options reader text with
    | .ok _ => endsInEscape true text = false
    | .error failure =>
      failure.mistake = .danglingEscape ∨ failure.mistake = .listEmpty ∨
        failure.mistake = .listNotClosed ∧ endsInEscape true text = false := by
  have other {c : Char} {rest : List Char} (flat : .plain '[' ∉ ofText true (c :: rest)) :
      c ≠ '[' := by
    rintro rfl
    rw [ofText_cons (by decide)] at flat
    exact flat List.mem_cons_self
  fun_induction run options reader text with
  | case1 reader =>
      split
      · rfl
      · next failed =>
          obtain ⟨list, -, rfl⟩ := exists_list_of_finish_error failed
          exact .inr (.inr ⟨rfl, rfl⟩)
  | case2 reader c rest failure failed =>
      obtain ⟨-, -, rfl⟩ := Token.read_error_of_ne (other flat) failed
      exact .inl rfl
  | case3 reader c rest token after found failure failed =>
      obtain ⟨list, -, rfl⟩ := exists_list_of_take_error failed
      exact .inr (.inl rfl)
  | case4 reader c rest token after found next taken ih =>
      obtain ⟨glyphs, whole, -, -⟩ := Token.exists_glyphs_of_read escapes (other flat) found
      rw [Token.endsInEscape_eq_of_read escapes (other flat) found]
      apply ih
      rw [whole] at flat
      exact fun present => flat (List.mem_append_right glyphs present)

end Reader

/-- Whether no range after a bracket is wrong. -/
def RangesInOrder (options : Options) (chars : List Char) : Prop :=
  ∀ rest, .plain '[' :: rest <:+ ofText true chars → Bracket.mistakeAfter? options rest = none

instance : Decidable (RangesInOrder options chars) :=
  decidable_of_iff
    (∀ tail ∈ (ofText true chars).tails, tail.head? = some (.plain '[') →
      Bracket.mistakeAfter? options tail.tail = none) (by
    simp only [RangesInOrder, List.mem_tails]
    constructor
    · intro all rest inside
      exact all _ inside rfl
    · intro all tail inside head
      obtain ⟨rest, rfl⟩ := List.head?_eq_some_iff.mp head
      exact all rest inside)

theorem suffix_of_suffix_append {α : Type} {a : α} {left middle right : List α}
    (inside : a :: left <:+ middle ++ right) (absent : a ∉ middle) : a :: left <:+ right := by
  induction middle with
  | nil => exact inside
  | cons b middle ih =>
      rw [List.mem_cons, not_or] at absent
      rcases List.suffix_cons_iff.mp inside with same | later
      · exact absurd (List.cons.inj same).1 absent.1
      · exact ih later absent.2

theorem RangesInOrder.of_read {inList : Bool} {token : Token} (escapes : options.escapes = true)
    (asked : options.unclosedBracket = .literal) (unclosed : ']' ∉ rest)
    (found : Token.read options inList c rest = .ok (token, after))
    (later : RangesInOrder options after) : RangesInOrder options (c :: rest) := by
  intro others inside
  by_cases bracket : c = '['
  · subst bracket
    obtain ⟨-, rfl, none⟩ := Token.read_bracket_of_ok escapes asked unclosed found
    rw [ofText_cons (by decide)] at inside
    rcases List.suffix_cons_iff.mp inside with same | within
    · rw [(List.cons.inj same).2, none]
    · exact later others within
  · obtain ⟨glyphs, whole, flat, -⟩ := Token.exists_glyphs_of_read escapes bracket found
    rw [whole] at inside
    exact later others (suffix_of_suffix_append inside flat)

/-- How the outcome for a pattern compares with the one for the pattern with escaped brackets. -/
inductive Compares (options : Options) (chars : List Char) {α : Type} :
    Except Mistake α → Except Mistake α → Prop
  | same (outcome : Except Mistake α) : Compares options chars outcome outcome
  | wrongRange {rest : List Glyph} {mistake : Mistake} (outcome : Except Mistake α)
    (inside : .plain '[' :: rest <:+ ofText true chars)
    (wrong : Bracket.mistakeAfter? options rest = some mistake) :
    Compares options chars (.error mistake) outcome
  | inEscape (dangling : endsInEscape true chars = true) :
    Compares options chars (.error .danglingEscape) (.error .listEmpty)

section Compares

variable {α β : Type} {outcome escaped : Except Mistake α}

theorem Compares.mono (compares : Compares options after outcome escaped)
    (inside : ofText true after <:+ ofText true chars) :
    Compares options chars outcome escaped := by
  cases compares with
  | same => exact .same outcome
  | wrongRange _ within wrong => exact .wrongRange escaped (within.trans inside) wrong
  | inEscape dangling => exact .inEscape (endsInEscape_of_suffix inside dangling)

theorem Compares.map (f : α → β) (compares : Compares options chars outcome escaped) :
    Compares options chars (outcome.map f) (escaped.map f) := by
  cases compares with
  | same => exact .same _
  | wrongRange _ inside wrong => exact .wrongRange _ inside wrong
  | inEscape dangling => exact .inEscape dangling

theorem Compares.of_rangesInOrder (compares : Compares options chars outcome escaped)
    (inOrder : RangesInOrder options chars) :
    outcome = escaped ∨ endsInEscape true chars = true ∧ outcome = .error .danglingEscape ∧
      escaped = .error .listEmpty := by
  cases compares with
  | same => exact .inl rfl
  | wrongRange _ inside wrong =>
      rw [inOrder _ inside] at wrong
      cases wrong
  | inEscape dangling => exact .inr ⟨dangling, rfl, rfl⟩

theorem Compares.eq_of_ok {value : α} (compares : Compares options chars outcome escaped)
    (read : outcome = .ok value) : escaped = .ok value := by
  cases compares with
  | same => exact read
  | wrongRange => cases read
  | inEscape => cases read

theorem Compares.eq_of_error {mistake : Mistake}
    (compares : Compares options chars outcome escaped) (failed : outcome = .error mistake) :
    escaped = .error mistake ∨ mistake = .danglingEscape ∧ escaped = .error .listEmpty ∨
      ∃ rest, .plain '[' :: rest <:+ ofText true chars ∧
        Bracket.mistakeAfter? options rest = some mistake := by
  cases compares with
  | same => exact .inl failed
  | wrongRange _ inside wrong =>
      cases failed
      exact .inr (.inr ⟨_, inside, wrong⟩)
  | inEscape =>
      cases failed
      exact .inr (.inl ⟨rfl, rfl⟩)

end Compares

theorem Failure.mapError_mapRest {α : Type} (f : List Char → List Char)
    (result : Except Failure α) :
    (result.mapError (mapRest f)).mapError mistake = result.mapError mistake := by
  cases result <;> rfl

namespace Reader

variable {reader : Reader} {text : List Char}

theorem compares_of_dangling (escapes : options.escapes = true) (reader : Reader)
    (dangling : endsInEscape true text = true) :
    Compares options text (.error .danglingEscape)
      ((reader.run options (escapeBrackets text)).mapError Failure.mistake) := by
  have read := run_of_flat escapes reader (bracket_notMem_ofText_escapeBrackets text)
  rw [endsInEscape_escapeBrackets dangling] at read
  cases result : reader.run options (escapeBrackets text) with
  | ok pieces =>
      rw [result] at read
      cases read
  | error failure =>
      rw [result] at read
      rw [Except.mapError]
      rcases read with same | same | ⟨-, settled⟩
      · rw [same]
        exact .same _
      · rw [same]
        exact .inEscape dangling
      · cases settled

theorem run_compares (escapes : options.escapes = true)
    (asked : options.unclosedBracket = .literal) (reader : Reader) (unclosed : ']' ∉ text) :
    Compares options text ((reader.run options text).mapError Failure.mistake)
      (((reader.mapSigils escapeBrackets).run options (escapeBrackets text)).mapError
        Failure.mistake) := by
  -- Both readers keep the same lists and pieces throughout, but for where the lists begin.
  fun_induction run options reader text with
  | case1 reader =>
      have finished : (reader.mapSigils escapeBrackets).run options [] =
          reader.finish.mapError (Failure.mapRest escapeBrackets) := by
        rw [run, finish_mapSigils]
      rw [show escapeBrackets [] = [] from rfl, finished, Failure.mapError_mapRest]
      exact .same _
  | case2 reader c rest failure failed =>
      by_cases bracket : c = '['
      · subst bracket
        have inside : ofText true ('[' :: rest) = .plain '[' :: ofText true rest :=
          ofText_cons (by decide)
        rcases Token.read_bracket_of_error escapes asked (List.not_mem_of_not_mem_cons unclosed)
          failed with wrong | ⟨dangling, same⟩
        · exact .wrongRange _ (inside ▸ List.suffix_rfl) wrong
        · rw [Except.mapError, same]
          exact compares_of_dangling escapes _
            (endsInEscape_of_suffix (inside ▸ List.suffix_cons _ _) dangling)
      · obtain ⟨rfl, rfl, rfl⟩ := Token.read_error_of_ne bracket failed
        exact compares_of_dangling escapes _ rfl
  | case3 reader c rest token after found failure failed =>
      obtain ⟨d, written, same, foundAlike⟩ := Token.read_escapeBrackets escapes asked
        (List.not_mem_of_not_mem_cons unclosed) found
      have failedAlike := take_mapSigils options escapeBrackets reader token (c :: rest)
      rw [failed, same] at failedAlike
      rw [same, run_of_take_error (by simpa using foundAlike) failedAlike]
      exact .same _
  | case4 reader c rest token after found next taken ih =>
      have goesOn : ']' ∉ rest := List.not_mem_of_not_mem_cons unclosed
      obtain ⟨d, written, same, foundAlike⟩ := Token.read_escapeBrackets escapes asked goesOn found
      have takenAlike := take_mapSigils options escapeBrackets reader token (c :: rest)
      rw [taken, same] at takenAlike
      rw [same, run_step (by simpa using foundAlike) takenAlike]
      have left : ']' ∉ after := fun later => goesOn ((Token.suffix_of_read found).subset later)
      exact (ih left).mono (Token.suffix_ofText_of_read escapes asked goesOn found)

theorem rangesInOrder_of_run {pieces : List Piece} (escapes : options.escapes = true)
    (asked : options.unclosedBracket = .literal) (unclosed : ']' ∉ text)
    (read : reader.run options text = .ok pieces) : RangesInOrder options text := by
  fun_induction run options reader text with
  | case1 reader =>
      intro rest inside
      cases List.suffix_nil.mp inside
  | case2 reader c rest failure failed => cases read
  | case3 reader c rest token after found failure failed => cases read
  | case4 reader c rest token after found next taken ih =>
      have goesOn : ']' ∉ rest := List.not_mem_of_not_mem_cons unclosed
      have left : ']' ∉ after := fun later => goesOn ((Token.suffix_of_read found).subset later)
      exact .of_read escapes asked goesOn found (ih left read)

end Reader

namespace Pattern

def outcome (options : Options) (source : String) : Except Mistake (List (List Piece)) :=
  match compile options source with
  | .ok pattern => .ok pattern.alternatives
  | .error error => .error error.mistake

variable {source : String}

theorem outcome_unbraced (unbraced : options.braces = false) (source : String) :
    outcome options source =
      ((Piece.ofText options source.toList).mapError Failure.mistake).map
        fun pieces => [pieces] := by
  rw [outcome, compile_unbraced unbraced]
  cases Piece.ofText options source.toList <;> rfl

theorem outcome_compares (escapes : options.escapes = true) (unbraced : options.braces = false)
    (asked : options.unclosedBracket = .literal) (unclosed : ']' ∉ source.toList) :
    Compares options source.toList (outcome options source)
      (outcome options (String.ofList (escapeBrackets source.toList))) := by
  have read : Compares options source.toList _ _ :=
    Reader.run_compares escapes asked ⟨[], []⟩ unclosed
  rw [outcome_unbraced unbraced, outcome_unbraced unbraced, String.toList_ofList]
  exact read.map fun pieces => [pieces]

theorem rangesInOrder_of_outcome {alternatives : List (List Piece)}
    (escapes : options.escapes = true) (unbraced : options.braces = false)
    (asked : options.unclosedBracket = .literal) (unclosed : ']' ∉ source.toList)
    (compiled : outcome options source = .ok alternatives) :
    RangesInOrder options source.toList := by
  rw [outcome_unbraced unbraced] at compiled
  cases read : Piece.ofText options source.toList with
  | error failure =>
      rw [read] at compiled
      cases compiled
  | ok pieces => exact Reader.rangesInOrder_of_run escapes asked unclosed read

theorem mistake_of_outcome_escaped {mistake : Mistake} (escapes : options.escapes = true)
    (unbraced : options.braces = false) (chars : List Char)
    (failed : outcome options (String.ofList (escapeBrackets chars)) = .error mistake) :
    mistake ∈ [.danglingEscape, .listEmpty, .listNotClosed] := by
  rw [outcome_unbraced unbraced, String.toList_ofList] at failed
  have flat := Reader.run_of_flat escapes ⟨[], []⟩ (bracket_notMem_ofText_escapeBrackets chars)
  rw [← Piece.ofText] at flat
  cases read : Piece.ofText options (escapeBrackets chars) with
  | ok pieces =>
      rw [read] at failed
      cases failed
  | error failure =>
      rw [read] at failed flat
      cases failed
      rcases flat with same | same | ⟨same, -⟩ <;> simp [same]

/-- Where brackets that are not closed stand for themselves, and no bracket can be closed, a pattern
compiles if and only if no range after a bracket is wrong and the pattern with escaped brackets
compiles, and then to the same. If no range is wrong, the same is wrong with both, but for an empty
list before a backslash at the end. What is wrong only as long as the brackets are not escaped is a
range after one of them. -/
theorem outcome_of_unclosed (escapes : options.escapes = true) (unbraced : options.braces = false)
    (asked : options.unclosedBracket = .literal) (unclosed : ']' ∉ source.toList) :
    let escaped := String.ofList (escapeBrackets source.toList)
    (∀ alternatives, outcome options source = .ok alternatives ↔
        RangesInOrder options source.toList ∧ outcome options escaped = .ok alternatives) ∧
      (RangesInOrder options source.toList →
        outcome options source = outcome options escaped ∨
          endsInEscape true source.toList = true ∧
            outcome options source = .error .danglingEscape ∧
            outcome options escaped = .error .listEmpty) ∧
      ∀ mistake, outcome options source = .error mistake →
        (mistake ∈ [.danglingEscape, .listEmpty, .listNotClosed] ∧
            ∃ other, outcome options escaped = .error other) ∨
          ∃ rest, .plain '[' :: rest <:+ ofText true source.toList ∧
            Bracket.mistakeAfter? options rest = some mistake := by
  intro escaped
  have compares := outcome_compares escapes unbraced asked unclosed
  refine ⟨?_, compares.of_rangesInOrder, ?_⟩
  · intro alternatives
    constructor
    · intro compiled
      exact ⟨rangesInOrder_of_outcome escapes unbraced asked unclosed compiled,
        compares.eq_of_ok compiled⟩
    · rintro ⟨inOrder, compiled⟩
      rcases compares.of_rangesInOrder inOrder with same | ⟨-, -, failed⟩
      · exact same.trans compiled
      · cases failed.symm.trans compiled
  · intro mistake failed
    rcases compares.eq_of_error failed with failedAlike | ⟨rfl, failedElse⟩ | wrong
    · have listed := mistake_of_outcome_escaped escapes unbraced source.toList failedAlike
      exact .inl ⟨listed, mistake, failedAlike⟩
    · exact .inl ⟨List.mem_cons_self, .listEmpty, failedElse⟩
    · exact .inr wrong

theorem outcome_of_unclosed_in_list :
    let options : Options := { unclosedBracket := .literal }
    (options.escapes = true ∧ options.braces = false ∧ options.unclosedBracket = .literal ∧
        ']' ∉ "@([a-c|[!-)".toList ∧ ']' ∉ "[z-a".toList) ∧
      outcome options "@([a-c|[!-)" = outcome options "@(\\[a-c|\\[!-)" ∧
      (∀ alternatives, outcome options "[z-a" ≠ .ok alternatives) ∧
      outcome options "\\[z-a" = .ok [[.literal "[z-a".toList]] := by
  intro options
  have unclosed : ']' ∉ "@([a-c|[!-)".toList := by decide
  have inOrder : RangesInOrder options "@([a-c|[!-)".toList := by decide +kernel
  have written : String.ofList (escapeBrackets "@([a-c|[!-)".toList) = "@(\\[a-c|\\[!-)" := by
    decide
  have wrong : ']' ∉ "[z-a".toList := by decide
  have unordered : ¬RangesInOrder options "[z-a".toList := by decide
  obtain ⟨-, kept, -⟩ := @outcome_of_unclosed options _ rfl rfl rfl unclosed
  obtain ⟨compiles, -, -⟩ := @outcome_of_unclosed options _ rfl rfl rfl wrong
  refine ⟨⟨rfl, rfl, rfl, unclosed, wrong⟩, ?_, ?_, ?_⟩
  · rw [written] at kept
    rcases kept inOrder with same | ⟨dangling, -, -⟩
    · exact same
    · exact absurd dangling (by decide)
  · intro alternatives compiled
    exact unordered ((compiles alternatives).mp compiled).1
  · rw [outcome_unbraced rfl]
    with_unfolding_all rfl

end Pattern

end Glob
