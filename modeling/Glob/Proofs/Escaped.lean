import Glob.Proofs.BraceProduct
import Glob.Proofs.NormalForm
import Glob.Proofs.Reading
import Glob.Proofs.TwoEnded

/-!
Escaping makes a text literal. A backslash before every character keeps brace groups, tokens and
lists from being read, and the letters that are read are one literal again.
-/

namespace Glob

/-- A backslash before every character. -/
def escape (text : List Char) : List Char :=
  text.flatMap fun c => ['\\', c]

theorem escape_eq_text (text : List Char) : escape text = Glyph.text (text.map .escaped) := by
  simp [escape, Glyph.text, Glyph.chars, List.flatMap_map]

variable {options : Options}

namespace Braces

theorem expand_escape (text : List Char) : expand true (escape text) = [escape text] := by
  have settled : Glyph.Settled true (text.map .escaped) := by
    intro glyph present
    obtain ⟨c, _, rfl⟩ := List.mem_map.mp present
    rfl
  apply expand_of_group_eq_none
  apply group?_eq_none_of_flat
  rw [escape_eq_text, Glyph.ofText_text settled]
  simp

end Braces

namespace Token

variable {c : Char} {rest : List Char}

theorem read_escaped (escapes : options.escapes = true) (inList : Bool) (c : Char)
    (rest : List Char) : read options inList '\\' (c :: rest) = .ok (literal c, rest) := by
  simp [read, escapes]

theorem opening?_eq_none (unopened : rest.head? ≠ some '(') : opening? options c rest = none := by
  unfold opening?
  split
  · exact absurd rfl unopened
  · rfl

theorem read_separator (separates : options.separator = some '/') (inList : Bool)
    (rest : List Char) : read options inList '/' rest = .ok (separator, rest) := by
  have unopened : opening? options '/' rest = none := by
    unfold opening?
    split <;> simp [Quantifier.ofSigil?]
  simp [read, ofChar, unopened, separates]

end Token

namespace Reader

variable {reader next : Reader} {token : Token} {c : Char} {rest after : List Char}

theorem run_step
    (found : Token.read options (!reader.lists.isEmpty) c rest = .ok (token, after))
    (taken : reader.take options token (c :: rest) = .ok next) :
    reader.run options (c :: rest) = next.run options after := by
  rw [run, found]
  simp only
  rw [taken]

theorem run_escape (escapes : options.escapes = true) (lists : List OpenList)
    (current : List Piece) (text after : List Char) :
    run options ⟨lists, current⟩ (escape text ++ after) =
      run options ⟨lists, (Piece.literal text).letters.reverse ++ current⟩ after := by
  induction text generalizing current with
  | nil => rfl
  | cons c later ih =>
      have found := Token.read_escaped escapes (!lists.isEmpty) c (escape later ++ after)
      calc
        run options ⟨lists, current⟩ (escape (c :: later) ++ after) =
            run options ⟨lists, .literal [c] :: current⟩ (escape later ++ after) :=
          run_step found rfl
        _ = _ := ih _
        _ = _ := by simp [Piece.letters]

theorem run_letters {pieces : List Piece} (normal : Piece.Normal pieces) :
    run options ⟨[], (pieces.flatMap Piece.letters).reverse⟩ [] = .ok pieces := by
  rw [run, finish]
  exact congrArg Except.ok (assemble_letters normal)

end Reader

namespace Piece

def ofPlain (text : List Char) : List Piece :=
  if text.isEmpty then [] else [.literal text]

theorem normal_ofPlain (text : List Char) : Normal (ofPlain text) := by
  cases text with
  | nil => decide
  | cons c later =>
      constructor <;> simp [ofPlain, Everywhere, sequences, inner, innerOf, isProper]

theorem letters_ofPlain (text : List Char) :
    (ofPlain text).flatMap letters = (literal text).letters := by
  cases text with
  | nil => rfl
  | cons c later => rw [ofPlain, if_neg (by simp), List.flatMap_singleton]

theorem ofText_escape (escapes : options.escapes = true) (text : List Char) :
    ofText options (escape text) = .ok (ofPlain text) := by
  have read := Reader.run_escape escapes [] [] text []
  rw [List.append_nil, List.append_nil, ← letters_ofPlain] at read
  rw [ofText, read, Reader.run_letters (normal_ofPlain text)]

end Piece

namespace Subject

theorem literalAt_iff_prefix {text chars : List Char} :
    (Subject.mk chars.toArray options).literalAt text 0 = true ↔ text <+: chars := by
  rw [literalAt_iff, List.prefix_iff_getElem?]
  simp

theorem accepts_ofPlain {plain chars : List Char} {stop : Nat} {leading : Bool} :
    (Subject.mk chars.toArray options).accepts (Piece.ofPlain plain) 0 stop leading = true ↔
      ∃ rest, chars = plain ++ rest ∧ plain.length ≤ stop ∧
        (plain.length = stop ∨ leading = true ∧ rest.head?.any options.isSeparator = true) := by
  have whole : (Subject.mk chars.toArray options).accepts (Piece.ofPlain plain) 0 stop leading =
      true ↔ plain.length ≤ stop ∧ plain <+: chars ∧
        (Subject.mk chars.toArray options).accepts [] plain.length stop leading = true := by
    cases plain with
    | nil => simp [Piece.ofPlain]
    | cons c later =>
        have opens : ¬Piece.OpensGlobstar (.literal (c :: later)) [] := by
          simp [Piece.OpensGlobstar]
        rw [Piece.ofPlain, if_neg (by simp), accepts_fixed rfl opens, Nat.zero_add,
          ← literalAt_iff_prefix]
        rfl
  have next (rest : List Char) : (plain ++ rest)[plain.length]? = rest.head? := by
    rw [List.getElem?_append_right (Nat.le_refl _), Nat.sub_self, List.head?_eq_getElem?]
  rw [whole, accepts_nil]
  constructor
  · rintro ⟨bound, ⟨rest, rfl⟩, ends⟩
    refine ⟨rest, rfl, bound, ?_⟩
    rw [isSeparatorAt, List.getElem?_toArray, next] at ends
    exact ends
  · rintro ⟨rest, rfl, bound, ends⟩
    refine ⟨bound, List.prefix_append plain rest, ?_⟩
    rw [isSeparatorAt, List.getElem?_toArray, next]
    exact ends

end Subject

namespace Pattern

variable {source : String}

theorem compile_ofList_escape (escapes : options.escapes = true) (plain : List Char) :
    compile options (String.ofList (escape plain)) =
      .ok ⟨String.ofList (escape plain), [Piece.ofPlain plain], options⟩ := by
  apply compile_of_ofText
  · rw [expansions, escapes, String.toList_ofList, Braces.expand_escape, ite_self]
  · rw [String.toList_ofList]
    exact Piece.ofText_escape escapes plain

theorem exists_eq_singleton {plain rest : List Char}
    (ending : (plain ++ rest).getLast?.any options.isSeparator = true)
    (short : plain.length = (plain ++ rest).length - 1) :
    ∃ c, options.isSeparator c = true ∧ rest = [c] := by
  obtain ⟨c, last, separates⟩ := (Option.any_eq_true _ _).mp ending
  obtain ⟨before, split⟩ := List.getLast?_eq_some_iff.mp last
  have same : plain.length = before.length := by
    rw [short, split, List.length_append, List.length_singleton, Nat.add_sub_cancel]
  exact ⟨c, separates, (List.append_inj split same).2⟩

theorem acceptsChars_ofPlain {plain chars : List Char} :
    acceptsChars ⟨source, [Piece.ofPlain plain], options⟩ chars = true ↔
      chars = plain ∨
        options.ignoresTrailingSeparator = true ∧
          (∃ c, options.isSeparator c = true ∧ chars = plain ++ [c]) ∨
        options.leadingDirectories = true ∧
          ∃ c rest, options.isSeparator c = true ∧ chars = plain ++ c :: rest := by
  have follows (rest : List Char) : rest.head?.any options.isSeparator = true ↔
      ∃ c later, options.isSeparator c = true ∧ rest = c :: later := by
    cases rest <;> simp
  simp only [acceptsChars, acceptsUpTo, List.any_cons, List.any_nil, Bool.or_false,
    Bool.or_eq_true, Bool.and_eq_true, Subject.accepts_ofPlain, follows]
  constructor
  · rintro (⟨rest, rfl, _, ends⟩ | ⟨⟨ignores, ending⟩, rest, rfl, _, ends⟩)
    · rcases ends with whole | ⟨leading, c, later, separates, rfl⟩
      · left
        simpa using whole
      · exact .inr (.inr ⟨leading, c, later, separates, rfl⟩)
    · rcases ends with short | ⟨leading, c, later, separates, rfl⟩
      · obtain ⟨c, separates, rfl⟩ := exists_eq_singleton ending short
        exact .inr (.inl ⟨ignores, c, separates, rfl⟩)
      · exact .inr (.inr ⟨leading, c, later, separates, rfl⟩)
  · rintro (rfl | ⟨ignores, c, separates, rfl⟩ | ⟨leading, c, rest, separates, rfl⟩)
    · exact .inl ⟨[], by simp, Nat.le_refl _, .inl rfl⟩
    · refine .inr ⟨⟨ignores, ?_⟩, [c], rfl, ?_, .inl ?_⟩ <;> simp [separates]
    · exact .inl ⟨c :: rest, rfl, by simp, .inr ⟨leading, c, rest, separates, rfl⟩⟩

/-- An escaped text compiles to one alternative, which matches the text, perhaps with a separator
at the end or with more below it, and nothing else. -/
theorem compile_escape (options : Options) (escapes : options.escapes = true) (plain : String) :
    ∃ pattern, compile options (String.ofList (escape plain.toList)) = .ok pattern ∧
      pattern.alternatives.length = 1 ∧
      ∀ text, pattern.accepts text = true ↔
        text = plain ∨
          options.ignoresTrailingSeparator = true ∧
            (∃ c, options.isSeparator c = true ∧ text = plain.push c) ∨
          options.leadingDirectories = true ∧
            ∃ c rest, options.isSeparator c = true ∧ text = plain.push c ++ rest := by
  refine ⟨_, compile_ofList_escape escapes plain.toList, rfl, ?_⟩
  intro text
  have below (c : Char) : (∃ rest, text.toList = plain.toList ++ c :: rest) ↔
      ∃ rest : String, text = plain.push c ++ rest := by
    constructor
    · rintro ⟨rest, same⟩
      refine ⟨String.ofList rest, ?_⟩
      rw [← String.toList_inj, same]
      simp
    · rintro ⟨rest, rfl⟩
      exact ⟨rest.toList, by simp⟩
  rw [accepts, acceptsChars_ofPlain]
  simp only [← String.toList_inj, String.toList_push, exists_and_left, below]

theorem compile_escape_brace_group :
    let options : Options := { braces := true, leadingDirectories := true }
    options.escapes = true ∧
      ∃ pattern, compile options "\\\x7b\\a\\,\\\x7d\\*" = .ok pattern ∧
        pattern.alternatives.length = 1 ∧
        ∀ text, pattern.accepts text = true ↔
          text = "\x7ba,\x7d*" ∨
            options.ignoresTrailingSeparator = true ∧
              (∃ c, options.isSeparator c = true ∧ text = "\x7ba,\x7d*".push c) ∨
            options.leadingDirectories = true ∧
              ∃ c rest, options.isSeparator c = true ∧ text = "\x7ba,\x7d*".push c ++ rest :=
  ⟨rfl, compile_escape { braces := true, leadingDirectories := true } rfl "\x7ba,\x7d*"⟩

end Pattern

end Glob
