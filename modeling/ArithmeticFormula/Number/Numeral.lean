import ArithmeticFormula.Number.Binary64

/-! Number literals: decimal digits with at most one point, at least one digit before or after it,
and an exponent part that counts only if it has a digit. The longest numeral at the start of a text is
read together with the text that follows it, and a numeral keeps its spelling. A whole text as a number is an
optional sign and one numeral; a minus is accepted only before a numeral whose value is, or rounds to, zero. -/
namespace ArithmeticFormula

inductive Sign where
  | plus
  | minus
  deriving DecidableEq, Repr

def Sign.char : Sign → Char
  | .plus => '+'
  | .minus => '-'

def Sign.split : List Char → Option Sign × List Char
  | '+' :: rest => (some .plus, rest)
  | '-' :: rest => (some .minus, rest)
  | text => (none, text)

structure ExponentPart where
  marker : Char
  sign : Option Sign
  digits : List Char
  deriving DecidableEq, Repr

namespace ExponentPart

def isMarker (c : Char) : Bool := c == 'e' || c == 'E'

def chars (part : ExponentPart) : List Char :=
  part.marker :: ((part.sign.map Sign.char).toList ++ part.digits)

def value (part : ExponentPart) : Int :=
  let size : Int := Nat.ofDigitChars 10 part.digits 0
  if part.sign = some .minus then -size else size

def read? : List Char → Option (ExponentPart × List Char)
  | [] => none
  | marker :: text =>
      if isMarker marker then
        let (sign, tail) := Sign.split text
        if (tail.takeWhile Char.isDigit).isEmpty then none
        else some (⟨marker, sign, tail.takeWhile Char.isDigit⟩, tail.dropWhile Char.isDigit)
      else none

end ExponentPart

/-- The fraction is absent without a point and may be empty after one. -/
structure Numeral where
  whole : List Char
  fraction : Option (List Char)
  exponent : Option ExponentPart
  deriving DecidableEq, Repr

namespace Numeral

def chars (n : Numeral) : List Char :=
  n.whole ++ (n.fraction.map ('.' :: ·)).getD [] ++ (n.exponent.map ExponentPart.chars).getD []

def text (n : Numeral) : String := String.ofList n.chars

def decimal (n : Numeral) : Decimal :=
  let places := n.fraction.getD []
  ⟨Nat.ofDigitChars 10 (n.whole ++ places) 0, (n.exponent.map ExponentPart.value).getD 0 - places.length⟩

def value? (n : Numeral) : Option Binary64 := n.decimal.nearest?

def splitFraction : List Char → Option (List Char) × List Char
  | '.' :: text => (some (text.takeWhile Char.isDigit), text.dropWhile Char.isDigit)
  | text => (none, text)

def read? (text : List Char) : Option (Numeral × List Char) :=
  let whole := text.takeWhile Char.isDigit
  let (fraction, tail) := splitFraction (text.dropWhile Char.isDigit)
  if whole.isEmpty && (fraction.getD []).isEmpty then none
  else
    match ExponentPart.read? tail with
    | some (part, rest) => some (⟨whole, fraction, some part⟩, rest)
    | none => some (⟨whole, fraction, none⟩, tail)

end Numeral

theorem Sign.splitAppend (text : List Char) :
    ((Sign.split text).1.map Sign.char).toList ++ (Sign.split text).2 = text := by
  unfold Sign.split
  split <;> rfl

theorem ExponentPart.readAppend {text rest : List Char} {part : ExponentPart}
    (read : read? text = some (part, rest)) : part.chars ++ rest = text := by
  cases text with
  | nil => cases read
  | cons marker text =>
    simp only [read?] at read
    split at read
    · split at read
      · cases read
      · cases read
        simp only [chars, List.cons_append, List.append_assoc, List.takeWhile_append_dropWhile,
          Sign.splitAppend]
    · cases read

theorem Numeral.splitFractionAppend (text : List Char) :
    ((splitFraction text).1.map ('.' :: ·)).getD [] ++ (splitFraction text).2 = text := by
  unfold splitFraction
  split
  · simp [List.takeWhile_append_dropWhile]
  · rfl

theorem Numeral.readAppend {text rest : List Char} {n : Numeral}
    (read : read? text = some (n, rest)) : n.chars ++ rest = text := by
  have whole := List.takeWhile_append_dropWhile (p := Char.isDigit) (l := text)
  have fraction := splitFractionAppend (text.dropWhile Char.isDigit)
  simp only [read?] at read
  split at read
  · cases read
  · split at read
    · rename_i part tail found
      cases read
      have exponent := ExponentPart.readAppend found
      simp only [chars, Option.map_some, Option.getD_some, List.append_assoc, exponent, fraction, whole]
    · cases read
      simp only [chars, Option.map_none, Option.getD_none, List.append_nil, List.append_assoc, fraction,
        whole]

theorem Numeral.readNonempty {text rest : List Char} {n : Numeral}
    (read : read? text = some (n, rest)) : n.chars ≠ [] := by
  simp only [read?] at read
  split at read
  · cases read
  · rename_i digits
    have nonempty : text.takeWhile Char.isDigit ≠ [] ∨
        ((splitFraction (text.dropWhile Char.isDigit)).1.map ('.' :: ·)).getD [] ≠ [] := by
      cases fraction : (splitFraction (text.dropWhile Char.isDigit)).1 <;> simp_all
    split at read <;> cases read <;> rcases nonempty with h | h <;> simp [chars, h]

namespace Literal

def signed? (sign : Option Sign) (x : Binary64) : Option Binary64 :=
  if sign = some .minus then if x.isZero then some x.negate else none else some x

def ofChars? (text : List Char) : Option Binary64 :=
  let (sign, body) := Sign.split text
  match Numeral.read? body with
  | some (numeral, []) => numeral.value?.bind (signed? sign)
  | _ => none

def ofText? (text : String) : Option Binary64 := ofChars? text.toList

end Literal

end ArithmeticFormula
