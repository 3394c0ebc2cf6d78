/-! The characters of a pattern with their escapes, so that a brace can be told from an escaped one. -/

namespace Glob

/-- A character of a pattern as it is written: by itself, or after a backslash. -/
inductive Glyph where
  | plain (c : Char)
  | escaped (c : Char)
  deriving DecidableEq, Repr

namespace Glyph

/-- The glyphs of a text; a backslash at its end has nothing to escape. -/
def ofText (escapes : Bool) : List Char → List Glyph
  | [] => []
  | '\\' :: c :: rest =>
    if escapes then escaped c :: ofText escapes rest
    else plain '\\' :: ofText escapes (c :: rest)
  | c :: rest => plain c :: ofText escapes rest

def chars : Glyph → List Char
  | plain c => [c]
  | escaped c => ['\\', c]

def text (glyphs : List Glyph) : List Char :=
  glyphs.flatMap chars

theorem text_ofText (escapes : Bool) (chars : List Char) : text (ofText escapes chars) = chars := by
  fun_induction ofText escapes chars <;> simp_all [text, Glyph.chars]

theorem text_append (left right : List Glyph) : text (left ++ right) = text left ++ text right := by
  simp [text]

theorem text_cons (glyph : Glyph) (rest : List Glyph) :
    text (glyph :: rest) = glyph.chars ++ text rest := by
  simp [text]

end Glyph

end Glob
