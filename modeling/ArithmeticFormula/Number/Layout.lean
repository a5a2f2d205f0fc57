import ArithmeticFormula.Number.Binary64

/-! How a double is written. For one, two, up to seventeen digits the two neighbours of the exact size on
that decimal grid are tried; the first grid with a neighbour that reads back decides, and of two such
neighbours the nearer one is taken, the upper one in a tie. A layout says which powers of ten of the leading
digit are written without an exponent, and whether a whole number keeps a point: formulas write every number
without an exponent and whole numbers without a point, the journal keeps the point and writes very large and
very small numbers with an exponent. -/
namespace ArithmeticFormula

namespace Shortest

def readsBack (x : Binary64) (d : Decimal) : Bool := d.nearest? == some x.unsigned

def overGrid (x : Binary64) (grid : Int) : Nat × Nat :=
  if 0 ≤ grid then (x.magnitude, Binary64.unitsPerOne * Nat.pow 10 grid.toNat)
  else (x.magnitude * Nat.pow 10 (-grid).toNat, Binary64.unitsPerOne)

def onGrid? (x : Binary64) (grid : Int) : Option Decimal :=
  let (numerator, denominator) := overGrid x grid
  let below : Decimal := ⟨numerator / denominator, grid⟩
  let above : Decimal := ⟨numerator / denominator + 1, grid⟩
  match readsBack x below, readsBack x above with
  | true, true => some (if 2 * (numerator % denominator) < denominator then below else above)
  | true, false => some below
  | false, true => some above
  | false, false => none

/-- The power of ten of the leading digit. The leading bit alone leaves two candidates, as 0.30103 is
just over the logarithm of two. -/
def leadingPower (x : Binary64) : Int :=
  let power : Int := ((x.magnitude.log2 : Int) - 1074) * 30103 / 100000
  let (numerator, denominator) := overGrid x (power + 1)
  if denominator ≤ numerator then power + 1 else power

/-- The exact size: a least unit is 5^1074 / 10^1074. -/
def exact (x : Binary64) : Decimal := ⟨x.magnitude * Nat.pow 5 1074, -1074⟩

def decimal (x : Binary64) : Decimal :=
  if x.isZero then ⟨0, 0⟩
  else
    let power := leadingPower x
    let grids := (List.range 17).map fun after : Nat => power - after
    ((grids.findSome? (onGrid? x)).getD (exact x)).trimmed

end Shortest

structure Layout where
  /-- Least and greatest leading power written without an exponent; all of them if absent. -/
  positional : Option (Int × Int)
  keepsPoint : Bool
  deriving DecidableEq, Repr

namespace Layout

def plain : Layout := ⟨none, false⟩

def journal : Layout := ⟨some (-4, 15), true⟩

def isPositional (layout : Layout) (power : Int) : Bool :=
  match layout.positional with
  | none => true
  | some (least, greatest) => least ≤ power && power ≤ greatest

def zeros (count : Nat) : List Char := List.replicate count '0'

def withPoint (digits : List Char) (places : Nat) : List Char :=
  if places < digits.length then
    digits.take (digits.length - places) ++ '.' :: digits.drop (digits.length - places)
  else '0' :: '.' :: (zeros (places - digits.length) ++ digits)

def positionalChars (layout : Layout) (digits : List Char) (exponent : Int) : List Char :=
  if 0 ≤ exponent then
    digits ++ zeros exponent.toNat ++ (if layout.keepsPoint then ['.', '0'] else [])
  else withPoint digits (-exponent).toNat

def exponentChars (digits : List Char) (power : Int) : List Char :=
  let mantissa :=
    match digits with
    | lead :: second :: rest => lead :: '.' :: second :: rest
    | few => few
  mantissa ++ 'e' :: (toString power).toList

def decimalChars (layout : Layout) (d : Decimal) : List Char :=
  let digits := Nat.toDigits 10 d.coefficient
  let power := d.exponent + digits.length - 1
  if layout.isPositional power then layout.positionalChars digits d.exponent
  else exponentChars digits power

def chars (layout : Layout) (x : Binary64) : List Char :=
  if x.isNaN then ['N', 'a', 'N']
  else
    let size := if x.isFinite then layout.decimalChars (Shortest.decimal x) else ['i', 'n', 'f']
    if x.isNegative then '-' :: size else size

def text (layout : Layout) (x : Binary64) : String := String.ofList (layout.chars x)

end Layout

end ArithmeticFormula
