/-! Values as configuration files have them, and reading the fields of an object. -/

namespace Glob

namespace Config

inductive Value where
  | null
  | bool (value : Bool)
  /-- The number `digits / 10 ^ decimals`. -/
  | number (digits : Int) (decimals : Nat)
  | string (text : String)
  | array (items : List Value)
  | object (fields : List (String × Value))
  deriving Inhabited, Repr

/-- The fields of an object, in any order. -/
abbrev Fields := List (String × Value)

/-- Sets a field, whether it was there before or not. -/
def set (fields : Fields) (field : String × Value) : Fields :=
  fields.filter (·.1 != field.1) ++ [field]

/-- Replaces or adds all fields of `changes`. -/
def override (fields changes : Fields) : Fields :=
  changes.foldl set fields

/-- The value of a field, or `absent` if there is none. A field given twice is refused. -/
def field? {α : Type} (fields : Fields) (key : String) (decode? : Value → Option α) (absent : α) :
    Option α :=
  match fields.filter (·.1 == key) with
  | [] => some absent
  | [(_, value)] => decode? value
  | _ => none

namespace Value

def toBool? : Value → Option Bool
  | bool value => some value
  | _ => none

/-- A character is a text of length one. -/
def toChar? : Value → Option Char
  | string text =>
    match text.toList with
    | [c] => some c
    | _ => none
  | _ => none

def ofChar (c : Char) : Value :=
  string (String.singleton c)

def toOptionalChar? : Value → Option (Option Char)
  | null => some none
  | value => value.toChar?.map some

def ofOptionalChar : Option Char → Value
  | none => null
  | some c => ofChar c

def toChars? : Value → Option (List Char)
  | array items => items.mapM toChar?
  | _ => none

def ofChars (chars : List Char) : Value :=
  array (chars.map ofChar)

/-- The choice with a given name. A choice may also be written as an object with its name as the
only key and nothing as its value. -/
def toChoice? {α : Type} (choices : List α) (name : α → String) : Value → Option α
  | string text => choices.find? (name · == text)
  | object [(key, null)] => choices.find? (name · == key)
  | _ => none

end Value

end Config

end Glob
