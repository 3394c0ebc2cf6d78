/-! The flags of `fnmatch`: five switches with fixed bits. -/

namespace Glob

structure FnmatchFlags where
  pathname : Bool := false
  noescape : Bool := false
  period : Bool := false
  leadingDir : Bool := false
  extmatch : Bool := false
  deriving DecidableEq, Repr

namespace FnmatchFlags

/-- Whether bit `index` of a two's complement number is set. -/
def testBit (bits : Int) (index : Nat) : Bool :=
  (bits >>> index) % 2 == 1

/-- The flags among the bits of a number; other bits are ignored. -/
def ofBits (bits : Int) : FnmatchFlags where
  pathname := testBit bits 0
  noescape := testBit bits 1
  period := testBit bits 2
  leadingDir := testBit bits 3
  extmatch := testBit bits 5

def bits (flags : FnmatchFlags) : Nat :=
  flags.pathname.toNat + 2 * flags.noescape.toNat + 4 * flags.period.toNat +
    8 * flags.leadingDir.toNat + 32 * flags.extmatch.toNat

def union (left right : FnmatchFlags) : FnmatchFlags where
  pathname := left.pathname || right.pathname
  noescape := left.noescape || right.noescape
  period := left.period || right.period
  leadingDir := left.leadingDir || right.leadingDir
  extmatch := left.extmatch || right.extmatch

def contains (flags part : FnmatchFlags) : Bool :=
  (!part.pathname || flags.pathname) && (!part.noescape || flags.noescape) &&
    (!part.period || flags.period) && (!part.leadingDir || flags.leadingDir) &&
    (!part.extmatch || flags.extmatch)

/-- The five flags by their names, without `FNM_`. -/
def named : List (String × FnmatchFlags) :=
  [("PATHNAME", { pathname := true }), ("NOESCAPE", { noescape := true }),
    ("PERIOD", { period := true }), ("LEADING_DIR", { leadingDir := true }),
    ("EXTMATCH", { extmatch := true })]

def ofName? (name : String) : Option FnmatchFlags :=
  named.lookup name

/-- The flags on one line, each with its value. -/
def describe (flags : FnmatchFlags) : String :=
  "FnmatchFlags \x7b pathname: " ++ toString flags.pathname ++ ", noescape: " ++
    toString flags.noescape ++ ", period: " ++ toString flags.period ++ ", leading_dir: " ++
    toString flags.leadingDir ++ ", extmatch: " ++ toString flags.extmatch ++ " \x7d"

end FnmatchFlags

end Glob
