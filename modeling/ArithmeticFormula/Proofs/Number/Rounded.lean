import ArithmeticFormula.Proofs.Number.Closest
import ArithmeticFormula.Proofs.Number.Decimal

/-! Doubles by the number that they stand for, and the double that a number rounds to: no finite double is
closer, and of two that are equally close it is the even one. Main statements: a decimal has no nearest double
exactly from 2^1024 - 2^970 on, else it rounds to the nearest double, and a larger decimal rounds to no smaller
double. -/
namespace ArithmeticFormula

namespace Binary64

variable {q : ℚ} {x y : Binary64} {numerator denominator : Nat}

def value (x : Binary64) : ℚ := (if x.isNegative then -1 else 1) * (x.magnitude / unitsPerOne)

/- No finite double is closer, and where one of another value is as close this one is even. -/
structure Rounds (q : ℚ) (x : Binary64) : Prop where
  finite : x.isFinite = true
  closest : ∀ y : Binary64, y.isFinite = true → |q - x.value| ≤ |q - y.value|
  even : ∀ y : Binary64, y.isFinite = true → y.value ≠ x.value → |q - y.value| = |q - x.value| →
    x.significand % 2 = 0

theorem unitsCastPositive : (0 : ℚ) < unitsPerOne := Nat.cast_pos.2 unitsPositive

theorem valueUnsigned (unsigned : x.isNegative = false) :
    x.value = wordUnits (x.exponentField * hiddenBit + x.fractionField) / unitsPerOne := by
  rw [value, magnitudeUnits, unsigned, if_neg Bool.false_ne_true, one_mul]

theorem valuePlain (plain : x.Plain) : x.value = wordUnits x.bits.toNat / unitsPerOne := by
  rw [valueUnsigned plain.unsigned, ← plainWord plain]

theorem significandParity (x : Binary64) : x.significand % 2 = x.bits.toNat % 2 := by
  have even : 2 ∣ hiddenBit := ⟨2 ^ 51, rfl⟩
  have fraction : x.fractionField % 2 = x.bits.toNat % 2 := Nat.mod_mod_of_dvd _ even
  rw [significand]
  split <;> omega

theorem distanceUnits (q units : ℚ) : |q - units / unitsPerOne| = |q * unitsPerOne - units| / unitsPerOne := by
  have positive := unitsCastPositive
  rw [← abs_of_pos positive, ← abs_div, abs_of_pos positive, sub_div, mul_div_cancel_right₀ _ positive.ne']

theorem valueWord (notBelow : 0 ≤ q) (y : Binary64) : ∃ word,
    |q - wordUnits word / unitsPerOne| ≤ |q - y.value| ∧
      (|q - y.value| ≤ |q - wordUnits word / unitsPerOne| → y.value = wordUnits word / unitsPerOne) := by
  cases sign : y.isNegative with
  | false =>
    refine ⟨_, ?_, fun _ => valueUnsigned sign⟩
    rw [valueUnsigned sign]
  | true =>
    have size : 0 ≤ (y.magnitude / unitsPerOne : ℚ) := div_nonneg (Nat.cast_nonneg _) (Nat.cast_nonneg _)
    have below : y.value = -(y.magnitude / unitsPerOne) := by rw [value, sign, if_pos rfl, neg_one_mul]
    have zero : (wordUnits 0 / unitsPerOne : ℚ) = 0 := by rw [wordUnitsZero, Nat.cast_zero, zero_div]
    have farther : |q - y.value| = |q - wordUnits 0 / unitsPerOne| + y.magnitude / unitsPerOne := by
      rw [zero, below, sub_zero, sub_neg_eq_add, abs_of_nonneg notBelow, abs_of_nonneg (add_nonneg notBelow size)]
    refine ⟨0, ?_, fun closer => ?_⟩
    · rw [farther]
      exact le_add_of_nonneg_right size
    · rw [zero, below]
      linarith

theorem roundsOfWord (plain : x.Plain) (notBelow : 0 ≤ q)
    (closest : ClosestWord (q * unitsPerOne) x.bits.toNat) : Rounds q x := by
  have words : ∀ word, |q - x.value| ≤ |q - wordUnits word / unitsPerOne| := by
    intro word
    rw [valuePlain plain, distanceUnits, distanceUnits]
    exact div_le_div_of_nonneg_right (closest.closest word) unitsCastPositive.le
  refine ⟨plain.finite, fun y _ => ?_, fun y _ different tie => ?_⟩
  · obtain ⟨word, closer, _⟩ := valueWord notBelow y
    exact (words word).trans closer
  · obtain ⟨word, closer, same⟩ := valueWord notBelow y
    rw [same (tie.le.trans (words word))] at different tie
    rw [valuePlain plain, distanceUnits, distanceUnits, div_left_inj' unitsCastPositive.ne'] at tie
    rw [significandParity]
    refine closest.even word ?_ tie
    rintro rfl
    exact different (valuePlain plain).symm

theorem hiddenCast : (hiddenBit : ℚ) = 2 ^ 52 := Nat.cast_pow 2 52

theorem unitsCast : (unitsPerOne : ℚ) = 2 ^ 1074 := by
  unfold unitsPerOne
  generalize 1074 = least
  exact Nat.cast_pow 2 least

theorem significandsHalf {shift high low least : Nat} (top : high = low + 54) (apart : shift = low + least + 1) :
    (((2 * hiddenBit - 1) * 2 ^ shift : Nat) + (2 * hiddenBit * 2 ^ shift : Nat) : ℚ) =
      2 * ((2 ^ high - 2 ^ low) * 2 ^ least) := by
  rw [Nat.cast_mul, Nat.cast_pred (Nat.mul_pos Nat.two_pos hiddenPositive), top, apart]
  push_cast
  rw [hiddenCast]
  ring

/- The half over the largest finite word, which is odd, so the half itself is beyond every double. -/
theorem firstInfiniteHalf : (wordUnits (firstInfiniteWord - 1) + wordUnits (firstInfiniteWord - 1 + 1) : ℚ) =
    2 * ((2 ^ 1024 - 2 ^ 970) * unitsPerOne) := by
  have largest : firstInfiniteWord - 1 = wordOf (2 * hiddenBit - 1) 2045 := rfl
  have next : firstInfiniteWord - 1 + 1 = wordOf (2 * hiddenBit) 2045 := rfl
  rw [next, largest, wordUnitsOf (Nat.sub_le _ _) (.inr (by decide)), wordUnitsOf le_rfl (.inr (by decide)),
    unitsCast]
  exact significandsHalf rfl rfl

theorem zeroHalf : (wordUnits 0 + wordUnits (0 + 1) : ℚ) = 2 * (1 / 2 ^ 1075 * unitsPerOne) := by
  have least : wordUnits (0 + 1) = 1 := by decide
  rw [wordUnitsZero, least, unitsCast, Nat.cast_zero, zero_add, Nat.cast_one]
  generalize exponent : 1074 = bits
  have next : 1075 = bits + 1 := congrArg Nat.succ exponent
  rw [next]
  field_simp
  rw [pow_succ']

theorem subnormalHalf : (wordUnits (hiddenBit - 1) + wordUnits (hiddenBit - 1 + 1) : ℚ) =
    2 * ((1 / 2 ^ 1022 - 1 / 2 ^ 1075) * unitsPerOne) := by
  have largest : hiddenBit - 1 = wordOf (hiddenBit - 1) 0 := rfl
  have next : hiddenBit - 1 + 1 = wordOf hiddenBit 0 := rfl
  rw [next, largest, wordUnitsOf (by omega) (.inl rfl), wordUnitsOf (by omega) (.inl rfl),
    Nat.cast_mul, Nat.cast_mul, Nat.cast_pred hiddenPositive, hiddenCast, unitsCast]
  generalize exponent : 1022 = bits
  have units : 1074 = bits + 52 := congrArg (· + 52) exponent
  have half : 1075 = bits + 53 := congrArg (· + 53) exponent
  rw [units, half]
  field_simp
  ring

variable {limit : ℚ} {other : Nat}

theorem aboveLimit (positive : 0 < denominator) (odd : other % 2 = 1)
    (half : (wordUnits other + wordUnits (other + 1) : ℚ) = 2 * (limit * unitsPerOne)) :
    other < nearestWord numerator denominator ↔ limit ≤ numerator / denominator := by
  rw [closestAboveOdd (nearestClosest positive) odd, half, mul_le_mul_iff_right₀ two_pos,
    mul_le_mul_iff_left₀ unitsCastPositive]

theorem atMostLimit (positive : 0 < denominator) (even : other % 2 = 0)
    (half : (wordUnits other + wordUnits (other + 1) : ℚ) = 2 * (limit * unitsPerOne)) :
    nearestWord numerator denominator ≤ other ↔ numerator / denominator ≤ limit := by
  rw [closestAtMostEven (nearestClosest positive) even, half, mul_le_mul_iff_right₀ two_pos,
    mul_le_mul_iff_left₀ unitsCastPositive]

theorem nearestNoneIff (positive : 0 < denominator) :
    nearest? numerator denominator = none ↔ (2 ^ 1024 - 2 ^ 970 : ℚ) ≤ numerator / denominator := by
  rw [← aboveLimit positive rfl firstInfiniteHalf, nearest?, ite_eq_right_iff]
  simp only [reduceCtorEq, imp_false, Nat.not_lt]
  have first : 0 < firstInfiniteWord := by decide
  omega

theorem nearestRounds (positive : 0 < denominator) (found : nearest? numerator denominator = some x) :
    Rounds (numerator / denominator) x := by
  refine roundsOfWord (nearestPlain found) (by positivity) ?_
  rw [(nearestBits found).1]
  exact nearestClosest positive

theorem nearestZeroIff (positive : 0 < denominator) (found : nearest? numerator denominator = some x) :
    x = zero ↔ (numerator / denominator : ℚ) ≤ 1 / 2 ^ 1075 := by
  rw [← atMostLimit positive rfl zeroHalf, ← (nearestBits found).1, Nat.le_zero]
  refine ⟨fun same => same ▸ rfl, fun nothing => ?_⟩
  obtain ⟨bits⟩ := x
  exact congrArg mk (UInt64.toNat.inj nothing)

theorem nearestSubnormalIff (positive : 0 < denominator) (found : nearest? numerator denominator = some x) :
    x.exponentField = 0 ↔ (numerator / denominator : ℚ) < 1 / 2 ^ 1022 - 1 / 2 ^ 1075 := by
  have fraction : x.fractionField < hiddenBit := Nat.mod_lt _ hiddenPositive
  rw [← not_le, ← aboveLimit positive rfl subnormalHalf, ← (nearestBits found).1, plainWord (nearestPlain found)]
  cases x.exponentField with
  | zero => omega
  | succ exponent =>
    rw [Nat.succ_mul]
    omega

structure Reads (q : ℚ) (x : Binary64) : Prop where
  plain : x.Plain
  rounds : x.Rounds q
  zero : x = .zero ↔ q ≤ 1 / 2 ^ 1075
  subnormal : x.exponentField = 0 ↔ q < 1 / 2 ^ 1022 - 1 / 2 ^ 1075

theorem nearestReads (positive : 0 < denominator) (found : nearest? numerator denominator = some x) :
    Reads (numerator / denominator) x :=
  ⟨nearestPlain found, nearestRounds positive found, nearestZeroIff positive found,
    nearestSubnormalIff positive found⟩

theorem nearestIncrease {numerator₁ denominator₁ numerator₂ denominator₂ : Nat}
    (positive₁ : 0 < denominator₁) (positive₂ : 0 < denominator₂)
    (found₁ : nearest? numerator₁ denominator₁ = some x)
    (found₂ : nearest? numerator₂ denominator₂ = some y)
    (less : (numerator₁ / denominator₁ : ℚ) ≤ numerator₂ / denominator₂) : x.value ≤ y.value := by
  have words := closestIncrease (nearestClosest positive₁) (nearestClosest positive₂)
    (mul_le_mul_of_nonneg_right less unitsCastPositive.le)
  rw [← (nearestBits found₁).1, ← (nearestBits found₂).1] at words
  rw [valuePlain (nearestPlain found₁), valuePlain (nearestPlain found₂)]
  exact div_le_div_of_nonneg_right (Nat.cast_le.2 (wordUnitsIncrease.monotone words)) unitsCastPositive.le

end Binary64

namespace Decimal

variable {d e : Decimal} {x y : Binary64}

theorem nearestNoneIff : d.nearest? = none ↔ 2 ^ 1024 - 2 ^ 970 ≤ d.value := by
  rw [nearestFraction, Binary64.nearestNoneIff d.fractionPositive, fractionValue]

theorem nearestReads (found : d.nearest? = some x) : x.Reads d.value := by
  rw [nearestFraction] at found
  rw [← fractionValue]
  exact Binary64.nearestReads d.fractionPositive found

theorem nearestIncrease (found : d.nearest? = some x) (foundOther : e.nearest? = some y)
    (less : d.value ≤ e.value) : x.value ≤ y.value := by
  rw [nearestFraction] at found foundOther
  rw [← fractionValue, ← fractionValue] at less
  exact Binary64.nearestIncrease d.fractionPositive e.fractionPositive found foundOther less

end Decimal
end ArithmeticFormula
