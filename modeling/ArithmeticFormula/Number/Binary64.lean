/-! Double precision numbers as words of 64 bits, and the double nearest to a decimal. The sign, exponent
and fraction fields give the exact size of a number as a natural number of least units, 2^-1074 each. Two
words are the same value by the rule of comparison: the zeros agree, and nothing agrees with a word that is
not a number. A fraction is counted in least units and cut to 53 significant bits, a half going to the even
neighbour; from 2^1024 - 2^970 on nothing finite is nearest. Exponents of decimals are unbounded: those that
put a decimal beyond every double, or under half the least one, are settled before any power is raised. -/
namespace ArithmeticFormula

structure Binary64 where
  bits : UInt64
  deriving DecidableEq, Repr

namespace Binary64

def signBit : Nat := Nat.pow 2 63

def hiddenBit : Nat := Nat.pow 2 52

def unitsPerOne : Nat := Nat.pow 2 1074

def zero : Binary64 := ⟨0⟩

def isNegative (x : Binary64) : Bool := signBit ≤ x.bits.toNat

def exponentField (x : Binary64) : Nat := x.bits.toNat / hiddenBit % 2048

def fractionField (x : Binary64) : Nat := x.bits.toNat % hiddenBit

def isFinite (x : Binary64) : Bool := x.exponentField != 2047

def isNaN (x : Binary64) : Bool := x.exponentField == 2047 && x.fractionField != 0

def isZero (x : Binary64) : Bool := x.bits.toNat % signBit == 0

def significand (x : Binary64) : Nat :=
  if x.exponentField = 0 then x.fractionField else hiddenBit + x.fractionField

def magnitude (x : Binary64) : Nat := x.significand * Nat.pow 2 (x.exponentField - 1)

def negate (x : Binary64) : Binary64 := ⟨x.bits ^^^ 0x8000000000000000⟩

def unsigned (x : Binary64) : Binary64 := ⟨x.bits &&& 0x7FFFFFFFFFFFFFFF⟩

def sameValue (x y : Binary64) : Bool :=
  !x.isNaN && !y.isNaN && (x == y || (x.isZero && y.isZero))

def toFloat (x : Binary64) : Float := Float.ofBits x.bits

def ofFloat (value : Float) : Binary64 := ⟨value.toBits⟩

theorem sameValueSelf {x : Binary64} (number : x.isNaN = false) : x.sameValue x = true := by
  simp [sameValue, number]

end Binary64

def roundHalfEven (numerator denominator : Nat) : Nat :=
  let quotient := numerator / denominator
  let twice := 2 * (numerator % denominator)
  if twice < denominator || (twice == denominator && quotient % 2 == 0) then quotient
  else quotient + 1

def droppedBits (units : Nat) : Nat := units.log2 - 52

namespace Binary64

/-- The word of a significand that stands `shift` bits above the least unit. A significand of 54 bits
carries into the exponent field. -/
def wordOf (significand shift : Nat) : Nat := shift * hiddenBit + significand

def nearestWord (numerator denominator : Nat) : Nat :=
  let units := numerator * unitsPerOne
  let shift := droppedBits (units / denominator)
  wordOf (roundHalfEven units (denominator * Nat.pow 2 shift)) shift

def firstInfiniteWord : Nat := 2047 * hiddenBit

def nearest? (numerator denominator : Nat) : Option Binary64 :=
  let word := nearestWord numerator denominator
  if word < firstInfiniteWord then some ⟨word.toUInt64⟩ else none

end Binary64

structure Decimal where
  coefficient : Nat
  exponent : Int
  deriving DecidableEq, Repr

namespace Decimal

def fraction (d : Decimal) : Nat × Nat :=
  if 0 ≤ d.exponent then (d.coefficient * Nat.pow 10 d.exponent.toNat, 1)
  else (d.coefficient, Nat.pow 10 (-d.exponent).toNat)

/-- A coefficient of at least one with such an exponent exceeds every double. -/
def isHuge (d : Decimal) : Bool := 400 < d.exponent

/-- The coefficient is under 2^(log2 + 1), so the value is under 10^-400. -/
def isTiny (d : Decimal) : Bool := d.exponent < -(401 + (d.coefficient.log2 : Int))

def nearest? (d : Decimal) : Option Binary64 :=
  if d.coefficient = 0 then some .zero
  else if d.isHuge then none
  else if d.isTiny then some .zero
  else Binary64.nearest? d.fraction.1 d.fraction.2

def trimmed (d : Decimal) : Decimal :=
  if zeros : d.coefficient ≠ 0 ∧ d.coefficient % 10 = 0 then
    trimmed ⟨d.coefficient / 10, d.exponent + 1⟩
  else d
termination_by d.coefficient
decreasing_by
  show d.coefficient / 10 < d.coefficient
  omega

end Decimal

end ArithmeticFormula
