import ArithmeticFormula.Number.Binary64
import Mathlib.Tactic.Ring

/-! The nearest double depends on the value of a fraction alone, not on how it is written. A value of at
least 2^1024 has none, a value below half the least unit has zero, and a double has itself. What is
nearest is finite and not below zero. -/
namespace ArithmeticFormula

variable {numerator denominator : Nat}

theorem roundHalfEvenScale {scale : Nat} (positive : 0 < scale) (numerator denominator : Nat) :
    roundHalfEven (scale * numerator) (scale * denominator) = roundHalfEven numerator denominator := by
  have twice : 2 * (scale * (numerator % denominator)) = scale * (2 * (numerator % denominator)) := by ring
  simp only [roundHalfEven, Nat.mul_div_mul_left _ _ positive, Nat.mul_mod_mul_left, twice,
    Nat.mul_lt_mul_left positive, beq_iff_eq, Nat.mul_right_inj positive.ne', Bool.or_eq_true,
    decide_eq_true_eq, Bool.and_eq_true]

theorem roundHalfEvenExact (positive : 0 < denominator) (quotient : Nat) :
    roundHalfEven (quotient * denominator) denominator = quotient := by
  simp [roundHalfEven, Nat.mul_div_cancel _ positive, positive]

theorem roundHalfEvenBelow (below : 2 * numerator < denominator) :
    roundHalfEven numerator denominator = 0 := by
  have quotient : numerator / denominator = 0 := Nat.div_eq_of_lt (by omega)
  have remainder : numerator % denominator = numerator := Nat.mod_eq_of_lt (by omega)
  simp [roundHalfEven, quotient, remainder, below]

theorem roundHalfEvenAtLeast (numerator denominator : Nat) :
    numerator / denominator ≤ roundHalfEven numerator denominator := by
  simp only [roundHalfEven]
  split
  · exact Nat.le_refl _
  · exact Nat.le_succ _

theorem powTwo (bits : Nat) : Nat.pow 2 bits = 2 ^ bits := rfl

theorem powTwoPositive (bits : Nat) : 0 < Nat.pow 2 bits := Nat.two_pow_pos bits

namespace Binary64

variable {x : Binary64}

theorem unitsPositive : 0 < unitsPerOne := by
  unfold unitsPerOne
  generalize 1074 = bits
  exact powTwoPositive bits

theorem unitsScale (bits : Nat) : 2 ^ (bits + 1074) = 2 ^ bits * unitsPerOne := by
  unfold unitsPerOne
  generalize 1074 = least
  exact Nat.pow_add 2 bits least

theorem nearestWordScale {scale : Nat} (positive : 0 < scale) (numerator denominator : Nat) :
    nearestWord (scale * numerator) (scale * denominator) = nearestWord numerator denominator := by
  simp only [nearestWord, Nat.mul_assoc, Nat.mul_div_mul_left _ _ positive, roundHalfEvenScale positive]

theorem nearestOfEqualFractions {numerator₁ denominator₁ numerator₂ denominator₂ : Nat}
    (equal : numerator₁ * denominator₂ = numerator₂ * denominator₁)
    (positive₁ : 0 < denominator₁) (positive₂ : 0 < denominator₂) :
    nearest? numerator₁ denominator₁ = nearest? numerator₂ denominator₂ := by
  have word : nearestWord numerator₁ denominator₁ = nearestWord numerator₂ denominator₂ := by
    calc nearestWord numerator₁ denominator₁
        = nearestWord (denominator₂ * numerator₁) (denominator₂ * denominator₁) :=
          (nearestWordScale positive₂ _ _).symm
      _ = nearestWord (denominator₁ * numerator₂) (denominator₁ * denominator₂) := by
          rw [Nat.mul_comm denominator₂, equal, Nat.mul_comm numerator₂, Nat.mul_comm denominator₂]
      _ = nearestWord numerator₂ denominator₂ := nearestWordScale positive₁ _ _
  simp only [nearest?, word]

theorem hiddenPositive : 0 < hiddenBit := powTwoPositive 52

theorem droppedLeading {units : Nat} (large : hiddenBit ≤ units) :
    hiddenBit * 2 ^ droppedBits units ≤ units := by
  have nonzero : units ≠ 0 := (hiddenPositive.trans_le large).ne'
  have bits : 52 ≤ units.log2 := (Nat.le_log2 nonzero).2 large
  rw [hiddenBit, powTwo, ← Nat.pow_add, ← Nat.le_log2 nonzero, droppedBits]
  omega

theorem nearestWordLarge {bits : Nat} (positive : 0 < denominator)
    (large : 2 ^ (bits + 52) * denominator ≤ numerator * unitsPerOne) :
    (bits + 1) * hiddenBit ≤ nearestWord numerator denominator := by
  have quotient : 2 ^ (bits + 52) ≤ numerator * unitsPerOne / denominator :=
    (Nat.le_div_iff_mul_le positive).2 large
  simp only [nearestWord, wordOf, powTwo]
  generalize numerator * unitsPerOne = total at quotient
  have nonzero : total / denominator ≠ 0 := (Nat.lt_of_lt_of_le (Nat.two_pow_pos _) quotient).ne'
  have exponent : bits + 52 ≤ (total / denominator).log2 := (Nat.le_log2 nonzero).2 quotient
  have leading := droppedLeading ((Nat.pow_le_pow_right (by decide) (Nat.le_add_left 52 bits)).trans quotient)
  have shift : bits ≤ droppedBits (total / denominator) := Nat.le_sub_of_add_le exponent
  generalize droppedBits (total / denominator) = dropped at leading shift
  have significand : hiddenBit ≤ roundHalfEven total (denominator * 2 ^ dropped) := by
    refine le_trans ?_ (roundHalfEvenAtLeast _ _)
    rwa [← Nat.div_div_eq_div_mul, Nat.le_div_iff_mul_le (Nat.two_pow_pos dropped)]
  calc (bits + 1) * hiddenBit ≤ (dropped + 1) * hiddenBit := Nat.mul_le_mul_right _ (Nat.succ_le_succ shift)
    _ = dropped * hiddenBit + hiddenBit := Nat.succ_mul _ _
    _ ≤ _ := Nat.add_le_add_left significand _

theorem nearestNone {bits : Nat} (wide : 1024 ≤ bits) (positive : 0 < denominator)
    (large : 2 ^ bits * denominator ≤ numerator) : nearest? numerator denominator = none := by
  have units : 2 ^ (bits + 1022 + 52) * denominator ≤ numerator * unitsPerOne := by
    calc 2 ^ (bits + 1074) * denominator = 2 ^ bits * denominator * unitsPerOne := by
          rw [unitsScale, Nat.mul_right_comm]
      _ ≤ numerator * unitsPerOne := Nat.mul_le_mul_right _ large
  have infinite : firstInfiniteWord ≤ nearestWord numerator denominator :=
    le_trans (Nat.mul_le_mul_right _ (by omega)) (nearestWordLarge positive units)
  simp only [nearest?, Nat.not_lt.2 infinite, if_false]

theorem nearestZero (small : 2 * (numerator * unitsPerOne) < denominator) :
    nearest? numerator denominator = some zero := by
  have quotient : numerator * unitsPerOne / denominator = 0 := Nat.div_eq_of_lt (by omega)
  have word : nearestWord numerator denominator = 0 := by
    simp [nearestWord, quotient, droppedBits, wordOf, roundHalfEvenBelow small]
  simp [nearest?, word, firstInfiniteWord, hiddenBit, zero]

theorem nearestWordExact {significand shift : Nat} (fits : significand < 2 * hiddenBit)
    (normal : shift = 0 ∨ hiddenBit ≤ significand) :
    nearestWord (significand * 2 ^ shift) unitsPerOne = wordOf significand shift := by
  have dropped : droppedBits (significand * 2 ^ shift) = shift := by
    have wide : 2 * hiddenBit = 2 ^ (52 + 1) := rfl
    by_cases nonzero : significand = 0
    · subst nonzero
      have subnormal : shift = 0 := normal.resolve_right (by decide)
      simp [subnormal, droppedBits]
    · have upper : (significand * 2 ^ shift).log2 < 52 + 1 + shift := by
        rw [Nat.log2_lt (Nat.mul_pos (Nat.pos_of_ne_zero nonzero) (Nat.two_pow_pos _)).ne', Nat.pow_add]
        exact Nat.mul_lt_mul_of_pos_right (wide ▸ fits) (Nat.two_pow_pos _)
      obtain rfl | leading := normal
      · rw [droppedBits]
        omega
      · have lower : 52 + shift ≤ (significand * 2 ^ shift).log2 := by
          rw [Nat.le_log2 (Nat.mul_pos (Nat.pos_of_ne_zero nonzero) (Nat.two_pow_pos _)).ne', Nat.pow_add]
          exact Nat.mul_le_mul_right _ leading
        rw [droppedBits]
        omega
  simp only [nearestWord, Nat.mul_div_cancel _ unitsPositive, dropped, powTwo]
  rw [Nat.mul_right_comm, Nat.mul_assoc, roundHalfEvenExact]
  exact Nat.mul_pos unitsPositive (Nat.two_pow_pos _)

structure Plain (x : Binary64) : Prop where
  finite : x.isFinite = true
  unsigned : x.isNegative = false

theorem unsignedIff : x.isNegative = false ↔ x.bits.toNat < signBit := by
  simp [isNegative]

theorem plainIff : x.Plain ↔ x.bits.toNat < firstInfiniteWord := by
  have finite : x.isFinite = true ↔ x.bits.toNat / hiddenBit % 2048 ≠ 2047 := by
    simp [isFinite, exponentField]
  have fields : x.Plain ↔ x.bits.toNat / hiddenBit % 2048 ≠ 2047 ∧ x.bits.toNat < signBit :=
    ⟨fun plain => ⟨finite.1 plain.finite, unsignedIff.1 plain.unsigned⟩,
      fun fields => ⟨finite.2 fields.1, unsignedIff.2 fields.2⟩⟩
  rw [fields]
  simp only [firstInfiniteWord, hiddenBit, signBit, powTwo]
  omega

theorem nearestBits (nearest : nearest? numerator denominator = some x) :
    x.bits.toNat = nearestWord numerator denominator ∧ x.bits.toNat < firstInfiniteWord := by
  simp only [nearest?] at nearest
  split at nearest
  · rename_i word
    cases nearest
    have small : firstInfiniteWord < 2 ^ 64 := by decide
    rw [Nat.toUInt64, UInt64.toNat_ofNat', Nat.mod_eq_of_lt (word.trans small)]
    exact ⟨rfl, word⟩
  · cases nearest

theorem nearestPlain (nearest : nearest? numerator denominator = some x) : x.Plain :=
  plainIff.2 (nearestBits nearest).2

theorem plainWord (plain : x.Plain) : x.bits.toNat = x.exponentField * hiddenBit + x.fractionField := by
  have exponent : x.exponentField = x.bits.toNat / hiddenBit :=
    Nat.mod_eq_of_lt ((Nat.div_lt_iff_lt_mul (by decide)).2 ((plainIff.1 plain).trans (by decide)))
  rw [exponent, fractionField, Nat.mul_comm]
  exact (Nat.div_add_mod _ _).symm

theorem nearestMagnitude (plain : x.Plain) : nearest? x.magnitude unitsPerOne = some x := by
  have word := plainIff.1 plain
  have whole := plainWord plain
  have fraction : x.fractionField < hiddenBit := Nat.mod_lt _ (by decide)
  have read : nearestWord x.magnitude unitsPerOne = x.bits.toNat := by
    rw [magnitude, powTwo, whole, significand]
    split
    · rename_i subnormal
      rw [subnormal, nearestWordExact (by omega) (.inl rfl), wordOf]
    · rename_i normal
      rw [nearestWordExact (by omega) (.inr (by omega)), wordOf, ← Nat.add_assoc, ← Nat.succ_mul]
      congr 2
      omega
  simp [nearest?, read, word]

end Binary64
end ArithmeticFormula
