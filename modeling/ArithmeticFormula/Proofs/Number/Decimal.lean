import ArithmeticFormula.Number.Layout
import ArithmeticFormula.Number.Numeral
import ArithmeticFormula.Proofs.Number.Nearest
import Mathlib.Data.Rat.Cast.Order
import Mathlib.Tactic.FieldSimp

/-! The double nearest to a decimal is that nearest to its value: the two shortcuts for exponents far out
answer as the fraction would, and zeros may move between the coefficient and the exponent. Main statements: the
shortest decimal of a double reads back as that double, and the double that a numeral is read as depends only on
the number that it writes. -/
namespace ArithmeticFormula

namespace Decimal

theorem eightPowLe (places : Nat) : 2 ^ (3 * places) ≤ 10 ^ places := by
  rw [Nat.pow_mul]
  exact Nat.pow_le_pow_left (by decide) places

theorem tenPow (places : Nat) : Nat.pow 10 places = 10 ^ places := rfl

theorem fractionPositive (d : Decimal) : 0 < d.fraction.2 := by
  rw [fraction]
  split
  · exact Nat.one_pos
  · exact Nat.pow_pos (by decide)

theorem hugeNone {d : Decimal} (nonzero : d.coefficient ≠ 0) (huge : d.isHuge = true) :
    Binary64.nearest? d.fraction.1 d.fraction.2 = none := by
  have exponent : 400 < d.exponent := of_decide_eq_true huge
  have whole : 0 ≤ d.exponent := by omega
  rw [fraction, if_pos whole]
  have wide : 1024 ≤ 3 * d.exponent.toNat := by omega
  apply Binary64.nearestNone wide Nat.one_pos
  calc 2 ^ (3 * d.exponent.toNat) * 1 ≤ 10 ^ d.exponent.toNat := by
        rw [Nat.mul_one]
        exact eightPowLe _
    _ ≤ d.coefficient * 10 ^ d.exponent.toNat := Nat.le_mul_of_pos_left _ (Nat.pos_of_ne_zero nonzero)

theorem tinyZero {d : Decimal} (tiny : d.isTiny = true) :
    Binary64.nearest? d.fraction.1 d.fraction.2 = some .zero := by
  have exponent : d.exponent < -(401 + (d.coefficient.log2 : Int)) := of_decide_eq_true tiny
  have below : ¬ 0 ≤ d.exponent := by omega
  rw [fraction, if_neg below]
  apply Binary64.nearestZero
  have leading : d.coefficient < 2 ^ (d.coefficient.log2 + 1) := Nat.lt_log2_self
  have double : 2 * d.coefficient < 2 ^ (d.coefficient.log2 + 2) := by
    rw [Nat.pow_succ]
    omega
  calc 2 * (d.coefficient * Binary64.unitsPerOne)
      = 2 * d.coefficient * Binary64.unitsPerOne := (Nat.mul_assoc _ _ _).symm
    _ < 2 ^ (d.coefficient.log2 + 2) * Binary64.unitsPerOne :=
        Nat.mul_lt_mul_of_pos_right double Binary64.unitsPositive
    _ = 2 ^ (d.coefficient.log2 + 2 + 1074) := (Binary64.unitsScale _).symm
    _ ≤ 2 ^ (3 * (-d.exponent).toNat) := Nat.pow_le_pow_right (by decide) (by omega)
    _ ≤ 10 ^ (-d.exponent).toNat := eightPowLe _

theorem nearestFraction (d : Decimal) : d.nearest? = Binary64.nearest? d.fraction.1 d.fraction.2 := by
  rw [nearest?]
  split
  · rename_i zero
    have numerator : d.fraction.1 = 0 := by
      rw [fraction]
      split <;> simp [zero]
    rw [numerator, Binary64.nearestZero (by simpa using fractionPositive d)]
  · rename_i nonzero
    split
    · rename_i huge
      exact (hugeNone nonzero huge).symm
    · split
      · rename_i tiny
        exact (tinyZero tiny).symm
      · rfl

theorem nearestPlain {d : Decimal} {x : Binary64} (nearest : d.nearest? = some x) : x.Plain :=
  Binary64.nearestPlain (nearestFraction d ▸ nearest)

theorem fractionWhole (coefficient places : Nat) :
    fraction ⟨coefficient, places⟩ = (coefficient * 10 ^ places, 1) :=
  if_pos (Int.natCast_nonneg places)

theorem fractionSmall (coefficient : Nat) {places : Nat} (positive : 0 < places) :
    fraction ⟨coefficient, -places⟩ = (coefficient, 10 ^ places) := by
  have below : ¬ 0 ≤ -(places : Int) := by omega
  rw [fraction, if_neg below, neg_neg, Int.toNat_natCast, tenPow]

theorem nearestShift (coefficient : Nat) (exponent : Int) :
    nearest? ⟨10 * coefficient, exponent⟩ = nearest? ⟨coefficient, exponent + 1⟩ := by
  rw [nearestFraction, nearestFraction]
  apply Binary64.nearestOfEqualFractions _ (fractionPositive _) (fractionPositive _)
  by_cases whole : 0 ≤ exponent
  · obtain ⟨places, rfl⟩ := Int.eq_ofNat_of_zero_le whole
    rw [fractionWhole, ← Nat.cast_succ, fractionWhole, Nat.pow_succ]
    ring
  · obtain ⟨places, rfl⟩ : ∃ places : Nat, exponent = -(places + 1 : Nat) :=
      ⟨(-exponent - 1).toNat, by omega⟩
    rw [fractionSmall _ (by omega)]
    cases places with
    | zero => simp [fraction, Nat.mul_comm]
    | succ places =>
      have fewer : -((places + 1 + 1 : Nat) : Int) + 1 = -(places + 1 : Nat) := by omega
      rw [fewer, fractionSmall _ (by omega), Nat.pow_succ _ (places + 1)]
      ring

theorem nearestShiftMany (coefficient : Nat) (exponent : Int) (places : Nat) :
    nearest? ⟨coefficient * 10 ^ places, exponent⟩ = nearest? ⟨coefficient, exponent + places⟩ := by
  induction places generalizing exponent with
  | zero => simp
  | succ places ih =>
    rw [Nat.pow_succ, ← Nat.mul_assoc, Nat.mul_comm _ 10, nearestShift, ih]
    congr 2
    push_cast
    ring

theorem nearestTrimmed (d : Decimal) : d.trimmed.nearest? = d.nearest? := by
  fun_induction trimmed d with
  | case1 d zeros ih =>
    have whole : 10 * (d.coefficient / 10) = d.coefficient := by omega
    rw [ih, ← nearestShift, whole]
  | case2 => rfl

end Decimal

namespace Shortest

variable {x : Binary64}

theorem unsignedPlain (plain : x.Plain) : x.unsigned = x := by
  have below := Binary64.unsignedIff.1 plain.unsigned
  obtain ⟨bits⟩ := x
  simp only [Binary64.unsigned, Binary64.mk.injEq]
  apply UInt64.toNat.inj
  rw [UInt64.toNat_and]
  exact (Nat.and_two_pow_sub_one_eq_mod _ 63).trans (Nat.mod_eq_of_lt below)

theorem zeroPlain (plain : x.Plain) (zero : x.isZero = true) : x = .zero := by
  have below := Binary64.unsignedIff.1 plain.unsigned
  obtain ⟨bits⟩ := x
  simp only [Binary64.isZero, beq_iff_eq, Nat.mod_eq_of_lt below] at zero
  simp only [Binary64.zero, Binary64.mk.injEq]
  exact UInt64.toNat.inj zero

theorem readsBackIff (plain : x.Plain) {d : Decimal} :
    readsBack x d = true ↔ d.nearest? = some x := by
  rw [readsBack, unsignedPlain plain, beq_iff_eq]

theorem onGridReadsBack {grid : Int} {d : Decimal} (found : onGrid? x grid = some d) :
    readsBack x d = true := by
  simp only [onGrid?] at found
  split at found
  · split at found <;> cases found <;> assumption
  · cases found
    assumption
  · cases found
    assumption
  · cases found

theorem exactNearest (plain : x.Plain) : (exact x).nearest? = some x := by
  rw [← Binary64.nearestMagnitude plain, Decimal.nearestFraction]
  apply Binary64.nearestOfEqualFractions _ (Decimal.fractionPositive _) Binary64.unitsPositive
  have small : (-1074 : Int) = -(1074 : Nat) := rfl
  rw [exact, small, Decimal.fractionSmall _ (by decide)]
  unfold Binary64.unitsPerOne
  generalize 1074 = least
  calc x.magnitude * 5 ^ least * 2 ^ least = x.magnitude * (5 * 2) ^ least := by
        rw [Nat.mul_assoc, ← Nat.mul_pow]
    _ = x.magnitude * 10 ^ least := rfl

theorem decimalNearest (plain : x.Plain) : (decimal x).nearest? = some x := by
  simp only [decimal]
  split
  · rename_i zero
    rw [zeroPlain plain zero]
    rfl
  · rw [Decimal.nearestTrimmed]
    generalize (List.range 17).map _ = grids
    cases found : grids.findSome? (onGrid? x) with
    | none => exact exactNearest plain
    | some d =>
      obtain ⟨grid, _, onGrid⟩ := List.exists_of_findSome?_eq_some found
      exact (readsBackIff plain).1 (onGridReadsBack onGrid)

end Shortest

namespace Decimal

variable {d e : Decimal}

def value (d : Decimal) : ℚ := d.coefficient * 10 ^ d.exponent

theorem fractionValue (d : Decimal) : (d.fraction.1 : ℚ) / d.fraction.2 = d.value := by
  obtain ⟨coefficient, exponent⟩ := d
  by_cases whole : 0 ≤ exponent
  · obtain ⟨places, rfl⟩ := Int.eq_ofNat_of_zero_le whole
    simp [fractionWhole, value]
  · obtain ⟨places, rfl⟩ : ∃ places : Nat, exponent = -(places : Nat) := ⟨(-exponent).toNat, by omega⟩
    rw [fractionSmall _ (by omega)]
    simp [value, div_eq_mul_inv]

theorem nearestOfEqualValues (equal : d.value = e.value) : d.nearest? = e.nearest? := by
  rw [nearestFraction, nearestFraction]
  apply Binary64.nearestOfEqualFractions _ d.fractionPositive e.fractionPositive
  rw [← fractionValue, ← fractionValue, div_eq_div_iff (Nat.cast_ne_zero.2 d.fractionPositive.ne')
    (Nat.cast_ne_zero.2 e.fractionPositive.ne')] at equal
  exact_mod_cast equal

end Decimal

namespace Numeral

variable {n m : Numeral}

def exactValue (n : Numeral) : ℚ :=
  let places := n.fraction.getD []
  (Nat.ofDigitChars 10 n.whole 0 + Nat.ofDigitChars 10 places 0 / 10 ^ places.length) *
    10 ^ (n.exponent.map ExponentPart.value).getD 0

theorem decimalValue (n : Numeral) : n.decimal.value = n.exactValue := by
  obtain ⟨whole, fraction, exponent⟩ := n
  simp only [decimal, Decimal.value, exactValue]
  generalize fraction.getD [] = places
  generalize (exponent.map ExponentPart.value).getD 0 = scale
  rw [Nat.ofDigitChars_append, Nat.ofDigitChars_eq_ofDigitChars_zero]
  have ten : (10 : ℚ) ≠ 0 := by norm_num
  rw [zpow_sub₀ ten, zpow_natCast]
  push_cast
  field_simp

theorem valueOfEqualExact (equal : n.exactValue = m.exactValue) : n.value? = m.value? := by
  rw [← decimalValue, ← decimalValue] at equal
  exact Decimal.nearestOfEqualValues equal

end Numeral

end ArithmeticFormula
