import ArithmeticFormula.Number.Layout
import ArithmeticFormula.Number.Numeral
import ArithmeticFormula.Proofs.Number.Decimal
import Mathlib.Data.List.TakeWhile

/-! Doubles as formulas write them. The text of a finite double that is not below zero is a numeral with
digits on both sides of a point, or with no point, and without an exponent. Reading takes that numeral
back whole, whatever it stands before that is no digit, point or exponent marker, and its value is the
double. -/
namespace ArithmeticFormula

theorem spanWhole {p : Char → Bool} {front rest : List Char} (all : ∀ c ∈ front, p c = true)
    (stops : ∀ c, rest.head? = some c → p c = false) :
    (front ++ rest).takeWhile p = front ∧ (front ++ rest).dropWhile p = rest := by
  rw [List.takeWhile_append_of_pos all, List.dropWhile_append_of_pos all]
  cases rest with
  | nil => simp
  | cons c rest => simp [stops c rfl]

namespace Numeral

variable {n : Numeral} {rest : List Char}

structure Positional (n : Numeral) : Prop where
  whole : ∀ c ∈ n.whole, c.isDigit = true
  wholeNonempty : n.whole ≠ []
  fraction : ∀ digits, n.fraction = some digits → digits ≠ [] ∧ ∀ c ∈ digits, c.isDigit = true
  exponent : n.exponent = none

theorem positionalChars (positional : n.Positional) : ∀ c ∈ n.chars, c.isDigit = true ∨ c = '.' := by
  intro c member
  simp only [chars, positional.exponent, List.mem_append, Option.map_none, Option.getD_none,
    List.not_mem_nil, or_false] at member
  rcases member with whole | fraction
  · exact .inl (positional.whole c whole)
  · cases found : n.fraction with
    | none => simp [found] at fraction
    | some digits =>
      rw [found, Option.map_some, Option.getD_some] at fraction
      rcases List.mem_cons.1 fraction with point | digit
      · exact .inr point
      · exact .inl ((positional.fraction digits found).2 c digit)

def Stops (rest : List Char) : Prop :=
  ∀ c, rest.head? = some c → c.isDigit = false ∧ c ≠ '.' ∧ ExponentPart.isMarker c = false

theorem noExponent (stops : Stops rest) : ExponentPart.read? rest = none := by
  cases rest with
  | nil => rfl
  | cons c rest =>
    simp only [ExponentPart.read?, (stops c rfl).2.2]
    rfl

end Numeral

namespace Decimal

variable {d : Decimal}

def numeral (d : Decimal) : Numeral :=
  let digits := Nat.toDigits 10 d.coefficient
  let places := (-d.exponent).toNat
  if 0 ≤ d.exponent then ⟨digits ++ Layout.zeros d.exponent.toNat, none, none⟩
  else if places < digits.length then
    ⟨digits.take (digits.length - places), some (digits.drop (digits.length - places)), none⟩
  else ⟨['0'], some (Layout.zeros (places - digits.length) ++ digits), none⟩

theorem numeralChars (d : Decimal) : d.numeral.chars = Layout.plain.decimalChars d := by
  simp only [numeral, Layout.decimalChars, Layout.plain, Layout.isPositional, Layout.positionalChars,
    Layout.withPoint]
  split
  · simp [Numeral.chars]
  · split <;> simp [Numeral.chars]

theorem digitsAll {coefficient : Nat} : ∀ c ∈ Nat.toDigits 10 coefficient, c.isDigit = true :=
  fun _ member => Nat.isDigit_of_mem_toDigits (by decide) (by decide) member

theorem zerosAll {count : Nat} : ∀ c ∈ Layout.zeros count, c.isDigit = true := by
  intro c member
  rw [List.eq_of_mem_replicate member]
  rfl

theorem numeralPositional (d : Decimal) : d.numeral.Positional := by
  have nonempty : Nat.toDigits 10 d.coefficient ≠ [] := Nat.toDigits_ne_nil
  have someDigit := List.length_pos_iff.2 nonempty
  simp only [numeral]
  split
  · refine ⟨?_, by simp [nonempty], fun _ absent => (nomatch absent), rfl⟩
    intro c member
    rcases List.mem_append.1 member with digit | zero
    · exact digitsAll c digit
    · exact zerosAll c zero
  · rename_i below
    split
    · rename_i few
      refine ⟨fun c member => digitsAll c (List.mem_of_mem_take member), ?_, ?_, rfl⟩
      · rw [Ne, List.take_eq_nil_iff]
        exact not_or_intro (by omega) nonempty
      · intro digits found
        cases found
        refine ⟨?_, fun c member => digitsAll c (List.mem_of_mem_drop member)⟩
        rw [Ne, List.drop_eq_nil_iff]
        omega
    · refine ⟨by simp, by simp, ?_, rfl⟩
      intro digits found
      cases found
      refine ⟨by simp [nonempty], ?_⟩
      intro c member
      rcases List.mem_append.1 member with zero | digit
      · exact zerosAll c zero
      · exact digitsAll c digit

theorem numeralWhole (whole : 0 ≤ d.exponent) :
    d.numeral.decimal = ⟨d.coefficient * 10 ^ d.exponent.toNat, 0⟩ := by
  simp only [numeral, if_pos whole, Numeral.decimal, Option.getD_none, List.append_nil, mk.injEq]
  constructor
  · rw [Nat.ofDigitChars_append, Nat.ofDigitChars_ten_toDigits, Layout.zeros,
      Nat.ofDigitChars_replicate_zero, Nat.mul_comm]
  · rfl

theorem numeralBelow (below : ¬ 0 ≤ d.exponent) : d.numeral.decimal = d := by
  obtain ⟨coefficient, exponent⟩ := d
  have negative : exponent < 0 := Int.not_le.1 below
  simp only [numeral, if_neg below]
  split
  · rename_i few
    simp only [Numeral.decimal, Option.getD_some, List.take_append_drop, mk.injEq, List.length_drop,
      Nat.ofDigitChars_ten_toDigits, true_and, Option.map_none, Option.getD_none]
    omega
  · rename_i many
    simp only [Numeral.decimal, Option.getD_some, mk.injEq, List.length_append, Layout.zeros,
      List.length_replicate, Option.map_none, Option.getD_none]
    constructor
    · rw [List.cons_append, List.nil_append, Nat.ofDigitChars_cons, Nat.ofDigitChars_append,
        Nat.ofDigitChars_replicate_zero]
      exact Nat.ofDigitChars_ten_toDigits
    · omega

theorem numeralValue (d : Decimal) : d.numeral.value? = d.nearest? := by
  rw [Numeral.value?]
  by_cases whole : 0 ≤ d.exponent
  · rw [numeralWhole whole, nearestShiftMany, Int.toNat_of_nonneg whole, Int.zero_add]
  · rw [numeralBelow whole]

end Decimal

namespace Binary64

variable {x : Binary64}

def numeral (x : Binary64) : Numeral := (Shortest.decimal x).numeral

theorem plainNotNaN (plain : x.Plain) : x.isNaN = false := by
  have finite := plain.finite
  simp only [isFinite, bne_iff_ne] at finite
  simp [isNaN, finite]

theorem numeralChars (plain : x.Plain) : x.numeral.chars = Layout.plain.chars x := by
  rw [numeral, Decimal.numeralChars, Layout.chars, plainNotNaN plain, plain.finite, plain.unsigned]
  rfl

theorem numeralValue (plain : x.Plain) : x.numeral.value? = some x := by
  rw [numeral, Decimal.numeralValue, Shortest.decimalNearest plain]

end Binary64
end ArithmeticFormula
