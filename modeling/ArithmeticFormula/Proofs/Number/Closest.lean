import ArithmeticFormula.Proofs.Number.Nearest
import Mathlib.Algebra.Order.Field.Basic
import Mathlib.Algebra.Order.Field.Rat
import Mathlib.Data.Nat.Cast.Order.Field
import Mathlib.Order.Monotone.Basic
import Mathlib.Tactic.FieldSimp
import Mathlib.Tactic.Linarith
import Mathlib.Tactic.Positivity

/-! Rounding to the closest word. Read without regard to the sign, words go on past the finite doubles, each
stands for more than the one before it, and the words from one power of two on lie on the grid of that power. A
number of least units is rounded on the grid of its leading bit; all words lie on this grid but smaller ones, so no
word is closer, and of two equally close words the even one is taken. Main statements: the nearest word is the
closest one, and a closest word is at most another exactly if the number is on that side of the half between the
other and its successor. -/
namespace ArithmeticFormula

namespace Binary64

variable {word significand shift : Nat} {x : Binary64}

def wordUnits (word : Nat) : Nat :=
  if word < hiddenBit then word else (hiddenBit + word % hiddenBit) * 2 ^ (word / hiddenBit - 1)

theorem wordUnitsZero : wordUnits 0 = 0 := if_pos hiddenPositive

theorem wordUnitsOf (fits : significand ≤ 2 * hiddenBit) (normal : shift = 0 ∨ hiddenBit ≤ significand) :
    wordUnits (wordOf significand shift) = significand * 2 ^ shift := by
  by_cases small : significand < hiddenBit
  · obtain rfl : shift = 0 := normal.resolve_right (Nat.not_le.2 small)
    simp [wordOf, wordUnits, small]
  · obtain ⟨fraction, rfl⟩ := Nat.exists_eq_add_of_le (Nat.not_lt.1 small)
    have word : wordOf (hiddenBit + fraction) shift = fraction + hiddenBit * (shift + 1) := by
      rw [wordOf]
      ring
    have large : ¬ fraction + hiddenBit * (shift + 1) < hiddenBit := by
      rw [Nat.mul_succ]
      omega
    rw [word, wordUnits, if_neg large, Nat.add_mul_mod_self_left, Nat.add_mul_div_left _ _ hiddenPositive]
    obtain carry | within := (show fraction ≤ hiddenBit by omega).eq_or_lt
    · -- the significand has carried into the exponent
      rw [carry, Nat.mod_self, Nat.div_self hiddenPositive, Nat.add_comm 1, Nat.add_sub_cancel, Nat.pow_succ]
      ring
    · rw [Nat.mod_eq_of_lt within, Nat.div_eq_of_lt within, Nat.zero_add, Nat.add_sub_cancel]

theorem wordParts (word : Nat) : ∃ significand shift, word = wordOf significand shift ∧
    significand < 2 * hiddenBit ∧ (shift = 0 ∨ hiddenBit ≤ significand) := by
  by_cases small : word < hiddenBit
  · exact ⟨word, 0, by simp [wordOf], by omega, .inl rfl⟩
  · have below := Nat.mod_lt word hiddenPositive
    have exponent : 1 ≤ word / hiddenBit := (Nat.le_div_iff_mul_le hiddenPositive).2 (by omega)
    refine ⟨hiddenBit + word % hiddenBit, word / hiddenBit - 1, ?_, by omega, .inr (by omega)⟩
    have whole := Nat.div_add_mod word hiddenBit
    obtain ⟨shift, same⟩ := Nat.exists_eq_add_of_le exponent
    rw [same, Nat.mul_add] at whole
    rw [wordOf, same, Nat.add_sub_cancel_left, Nat.mul_comm shift]
    omega

theorem wordUnitsIncrease : StrictMono wordUnits := by
  refine strictMono_nat_of_lt_succ fun word => ?_
  obtain ⟨significand, shift, rfl, below, normal⟩ := wordParts word
  have next : wordOf significand shift + 1 = wordOf (significand + 1) shift := Nat.add_assoc _ _ _
  have normalNext : shift = 0 ∨ hiddenBit ≤ significand + 1 := normal.imp_right Nat.le_succ_of_le
  rw [next, wordUnitsOf below.le normal, wordUnitsOf (Nat.succ_le_of_lt below) normalNext]
  exact Nat.mul_lt_mul_of_pos_right (Nat.lt_succ_self _) (Nat.two_pow_pos _)

theorem wordUnitsGrid (word shift : Nat) :
    (∃ multiple, wordUnits word = multiple * 2 ^ shift) ∨ wordUnits word < hiddenBit * 2 ^ shift := by
  obtain ⟨significand, own, rfl, below, normal⟩ := wordParts word
  rw [wordUnitsOf below.le normal]
  by_cases above : shift ≤ own
  · refine .inl ⟨significand * 2 ^ (own - shift), ?_⟩
    rw [Nat.mul_assoc, ← Nat.pow_add, Nat.sub_add_cancel above]
  · refine .inr ?_
    calc significand * 2 ^ own < 2 * hiddenBit * 2 ^ own :=
          Nat.mul_lt_mul_of_pos_right below (Nat.two_pow_pos _)
      _ = hiddenBit * 2 ^ (own + 1) := by ring
      _ ≤ hiddenBit * 2 ^ shift := Nat.mul_le_mul_left _ (Nat.pow_le_pow_right (by decide) (by omega))

theorem magnitudeUnits (x : Binary64) :
    x.magnitude = wordUnits (x.exponentField * hiddenBit + x.fractionField) := by
  have fraction : x.fractionField < hiddenBit := Nat.mod_lt _ hiddenPositive
  rw [magnitude, significand, powTwo]
  cases x.exponentField with
  | zero => simp [wordUnits, fraction]
  | succ exponent =>
    have word : (exponent + 1) * hiddenBit + x.fractionField =
        wordOf (hiddenBit + x.fractionField) exponent := by
      rw [wordOf]
      ring
    rw [word, wordUnitsOf (by omega) (.inr (Nat.le_add_right _ _)), if_neg (Nat.succ_ne_zero _),
      Nat.add_sub_cancel]

end Binary64

variable {numerator denominator : Nat}

theorem roundHalfEvenWithin (positive : 0 < denominator) :
    2 * |(numerator : ℚ) - roundHalfEven numerator denominator * denominator| ≤ denominator ∧
      (2 * |(numerator : ℚ) - roundHalfEven numerator denominator * denominator| = denominator →
        roundHalfEven numerator denominator % 2 = 0) := by
  have below := Nat.mod_lt numerator positive
  have parts : (numerator : ℚ) = denominator * (numerator / denominator : Nat) +
      (numerator % denominator : Nat) := by
    exact_mod_cast (Nat.div_add_mod numerator denominator).symm
  simp only [roundHalfEven]
  generalize numerator % denominator = remainder at below parts
  generalize numerator / denominator = quotient at parts
  split
  · rename_i down
    have rest : (numerator : ℚ) - quotient * denominator = remainder := by
      rw [parts]
      ring
    rw [rest, Nat.abs_cast]
    norm_cast
    simp only [Bool.or_eq_true, decide_eq_true_eq, Bool.and_eq_true, beq_iff_eq] at down
    omega
  · rename_i up
    have rest : (numerator : ℚ) - (quotient + 1 : Nat) * denominator = -(denominator - remainder : Nat) := by
      rw [parts, Nat.cast_sub below.le]
      push_cast
      ring
    rw [rest, abs_neg, Nat.abs_cast]
    norm_cast
    simp only [Bool.or_eq_true, decide_eq_true_eq, Bool.and_eq_true, beq_iff_eq] at up
    omega

theorem multipleCloser {t step : ℚ} {own other : Nat} (positive : 0 < step)
    (within : 2 * |t - own * step| ≤ step) (different : other ≠ own) :
    |t - own * step| ≤ |t - other * step| ∧
      (|t - other * step| = |t - own * step| → 2 * |t - own * step| = step) := by
  have apart : (1 : ℚ) ≤ |(other : ℚ) - own| := by
    exact_mod_cast Int.one_le_abs (sub_ne_zero.2 (Int.ofNat_inj.not.2 different))
  have distance : step ≤ |t - own * step| + |t - other * step| := by
    calc step ≤ |(other : ℚ) - own| * step := le_mul_of_one_le_left positive.le apart
      _ = |(t - own * step) - (t - other * step)| := by
          rw [← abs_of_pos positive, ← abs_mul, abs_of_pos positive]
          congr 1
          ring
      _ ≤ |t - own * step| + |t - other * step| := abs_sub _ _
  exact ⟨by linarith, fun tie => by linarith⟩

theorem closerIff {t a b : ℚ} : |t - a| ≤ |t - b| ↔ 0 ≤ (b - a) * (a + b - 2 * t) := by
  have squares : (t - b) ^ 2 - (t - a) ^ 2 = (b - a) * (a + b - 2 * t) := by ring
  rw [← sq_le_sq, ← sub_nonneg, squares]

theorem closerThanAbove {t a b : ℚ} (above : a < b) : |t - a| ≤ |t - b| ↔ 2 * t ≤ a + b := by
  rw [closerIff, mul_nonneg_iff_of_pos_left (sub_pos.2 above), sub_nonneg]

theorem closerThanBelow {t a b : ℚ} (below : a < b) : |t - b| ≤ |t - a| ↔ a + b ≤ 2 * t := by
  rw [closerIff, ← neg_mul_neg, neg_sub, neg_sub, mul_nonneg_iff_of_pos_left (sub_pos.2 below), sub_nonneg,
    add_comm]

namespace Binary64

variable {t u : ℚ} {word other : Nat}

structure ClosestWord (t : ℚ) (word : Nat) : Prop where
  closest : ∀ other, |t - wordUnits word| ≤ |t - wordUnits other|
  even : ∀ other, other ≠ word → |t - wordUnits other| = |t - wordUnits word| → word % 2 = 0

theorem wordOfEven (significand shift : Nat) : wordOf significand shift % 2 = significand % 2 := by
  have even : hiddenBit % 2 = 0 := rfl
  rw [wordOf, Nat.add_mod, Nat.mul_mod, even]
  simp

theorem closestOnGrid {significand shift : Nat} (fits : significand ≤ 2 * hiddenBit)
    (normal : shift = 0 ∨ hiddenBit ≤ significand)
    (leading : shift = 0 ∨ (hiddenBit * 2 ^ shift : Nat) ≤ t)
    (within : 2 * |t - significand * 2 ^ shift| ≤ 2 ^ shift)
    (even : 2 * |t - significand * 2 ^ shift| = 2 ^ shift → significand % 2 = 0) :
    ClosestWord t (wordOf significand shift) := by
  have step : (0 : ℚ) < 2 ^ shift := by positivity
  have multiple : ∀ other : Nat, |t - significand * 2 ^ shift| ≤ |t - other * 2 ^ shift| := by
    intro other
    by_cases same : other = significand
    · rw [same]
    · exact (multipleCloser step within same).1
  have each : ∀ other, other ≠ wordOf significand shift →
      |t - significand * 2 ^ shift| ≤ |t - wordUnits other| ∧
        (|t - wordUnits other| = |t - significand * 2 ^ shift| → significand % 2 = 0) := by
    intro other different
    have grid : (∃ multiple, wordUnits other = multiple * 2 ^ shift) ∨
        (wordUnits other < hiddenBit * 2 ^ shift ∧ (hiddenBit * 2 ^ shift : Nat) ≤ t) := by
      obtain rfl | leading := leading
      · exact .inl ⟨wordUnits other, (Nat.mul_one _).symm⟩
      · exact (wordUnitsGrid other shift).imp_right fun below => ⟨below, leading⟩
    obtain ⟨multiple, same⟩ | ⟨below, above⟩ := grid
    · have apart : multiple ≠ significand := by
        rintro rfl
        exact different (wordUnitsIncrease.injective (same.trans (wordUnitsOf fits normal).symm))
      rw [same]
      push_cast
      have closer := multipleCloser step within apart
      exact ⟨closer.1, fun tie => even (closer.2 tie)⟩
    · -- a smaller word is beyond the least significand with a leading bit
      have least := multiple hiddenBit
      have under : (wordUnits other : ℚ) < hiddenBit * 2 ^ shift := by exact_mod_cast below
      push_cast at above
      rw [abs_of_nonneg (sub_nonneg.2 above)] at least
      have farther : |t - significand * 2 ^ shift| < |t - wordUnits other| := by
        rw [abs_of_pos (by linarith : 0 < t - wordUnits other)]
        linarith
      exact ⟨farther.le, fun tie => absurd tie farther.ne'⟩
  have own : (wordUnits (wordOf significand shift) : ℚ) = significand * 2 ^ shift := by
    rw [wordUnitsOf fits normal]
    push_cast
    rfl
  refine ⟨fun other => ?_, fun other different tie => ?_⟩
  · by_cases same : other = wordOf significand shift
    · rw [same]
    · rw [own]
      exact (each other same).1
  · rw [own] at tie
    rw [wordOfEven]
    exact (each other different).2 tie

theorem droppedSmall {units : Nat} (small : units < hiddenBit) : droppedBits units = 0 := by
  by_cases zero : units = 0
  · subst zero
    rfl
  · have bits : units.log2 < 52 := (Nat.log2_lt zero).2 small
    rw [droppedBits]
    omega

theorem droppedFits (units : Nat) : units < 2 * hiddenBit * 2 ^ droppedBits units := by
  have wide : 2 * hiddenBit = 2 ^ 53 := rfl
  refine Nat.lt_of_lt_of_le Nat.lt_log2_self ?_
  rw [wide, ← Nat.pow_add, droppedBits]
  exact Nat.pow_le_pow_right (by decide) (by omega)

theorem roundHalfEvenAtMost (numerator denominator : Nat) :
    roundHalfEven numerator denominator ≤ numerator / denominator + 1 := by
  simp only [roundHalfEven]
  split
  · exact Nat.le_succ _
  · exact Nat.le_refl _

theorem nearestClosest (positive : 0 < denominator) :
    ClosestWord (numerator / denominator * unitsPerOne) (nearestWord numerator denominator) := by
  rw [← mul_div_right_comm, ← Nat.cast_mul]
  simp only [nearestWord, powTwo]
  generalize numerator * unitsPerOne = units
  have small := @droppedSmall (units / denominator)
  have large := @droppedLeading (units / denominator)
  have fits := droppedFits (units / denominator)
  generalize droppedBits (units / denominator) = shift at small large fits
  have quotient : (0 : ℚ) < denominator := Nat.cast_pos.2 positive
  have scaled : ∀ significand : Nat, 2 * |(units : ℚ) - significand * (denominator * 2 ^ shift : Nat)| =
      denominator * (2 * |(units : ℚ) / denominator - significand * 2 ^ shift|) := by
    intro significand
    have whole : (units : ℚ) - significand * (denominator * 2 ^ shift : Nat) =
        denominator * (units / denominator - significand * 2 ^ shift) := by
      push_cast
      field_simp
    rw [whole, abs_mul, abs_of_pos quotient]
    ring
  have within := @roundHalfEvenWithin units _ (Nat.mul_pos positive (Nat.two_pow_pos shift))
  have atLeast := roundHalfEvenAtLeast units (denominator * 2 ^ shift)
  have atMost := roundHalfEvenAtMost units (denominator * 2 ^ shift)
  rw [← Nat.div_div_eq_div_mul] at atLeast atMost
  generalize roundHalfEven units (denominator * 2 ^ shift) = significand at within atLeast atMost
  rw [scaled, Nat.cast_mul, Nat.cast_pow, Nat.cast_ofNat, mul_le_mul_iff_right₀ quotient,
    mul_right_inj' quotient.ne'] at within
  have under : units / denominator / 2 ^ shift < 2 * hiddenBit :=
    (Nat.div_lt_iff_lt_mul (Nat.two_pow_pos shift)).2 fits
  have leading : shift = 0 ∨ hiddenBit * 2 ^ shift ≤ units / denominator :=
    (Nat.lt_or_ge _ _).imp small large
  refine closestOnGrid (by omega) (leading.imp_right fun enough => ?_) (leading.imp_right fun enough => ?_)
    within.1 within.2
  · exact ((Nat.le_div_iff_mul_le (Nat.two_pow_pos shift)).2 enough).trans atLeast
  · exact (Nat.cast_le.2 enough).trans Nat.cast_div_le

theorem wordUnitsLess : (wordUnits word : ℚ) < wordUnits other ↔ word < other := by
  rw [Nat.cast_lt, wordUnitsIncrease.lt_iff_lt]

theorem closestAtMost (closest : ClosestWord t word) (most : word ≤ other) :
    2 * t ≤ wordUnits other + wordUnits (other + 1) := by
  have half := (closerThanAbove (wordUnitsLess.2 (Nat.lt_succ_of_le most))).1 (closest.closest _)
  have units : (wordUnits word : ℚ) ≤ wordUnits other := Nat.cast_le.2 (wordUnitsIncrease.monotone most)
  exact half.trans (add_le_add_left units _)

theorem closestAbove (closest : ClosestWord t word) (above : other < word) :
    wordUnits other + wordUnits (other + 1) ≤ 2 * t := by
  have half := (closerThanBelow (wordUnitsLess.2 above)).1 (closest.closest _)
  have units : (wordUnits (other + 1) : ℚ) ≤ wordUnits word :=
    Nat.cast_le.2 (wordUnitsIncrease.monotone above)
  exact (add_le_add_right units _).trans half

theorem closestHalf (closest : ClosestWord t word)
    (half : 2 * t = wordUnits other + wordUnits (other + 1)) :
    word % 2 = 0 ∧ (word = other ∨ word = other + 1) := by
  have step : (wordUnits other : ℚ) < wordUnits (other + 1) := wordUnitsLess.2 (Nat.lt_succ_self _)
  obtain above | most := Nat.lt_or_ge other word
  · have near := (closerThanBelow (wordUnitsLess.2 above)).1 (closest.closest _)
    obtain rfl : other + 1 = word := by
      refine Nat.le_antisymm above (Nat.le_of_not_lt fun less => ?_)
      have units := wordUnitsLess.2 less
      linarith
    have tie := (closerThanAbove step).2 half.le
    exact ⟨closest.even _ (Nat.succ_ne_self _).symm (tie.antisymm (closest.closest _)), .inr rfl⟩
  · have near := (closerThanAbove (wordUnitsLess.2 (Nat.lt_succ_of_le most))).1 (closest.closest _)
    obtain rfl : word = other := by
      refine most.antisymm (Nat.le_of_not_lt fun less => ?_)
      have units := wordUnitsLess.2 less
      linarith
    have tie := (closerThanBelow step).2 half.ge
    exact ⟨closest.even _ (Nat.succ_ne_self _) (tie.antisymm (closest.closest _)), .inl rfl⟩

theorem closestAtMostEven (closest : ClosestWord t word) (even : other % 2 = 0) :
    word ≤ other ↔ 2 * t ≤ wordUnits other + wordUnits (other + 1) := by
  refine ⟨closestAtMost closest, fun half => ?_⟩
  by_contra above
  have tie := le_antisymm half (closestAbove closest (Nat.lt_of_not_le above))
  have neighbour := closestHalf closest tie
  omega

theorem closestAboveOdd (closest : ClosestWord t word) (odd : other % 2 = 1) :
    other < word ↔ wordUnits other + wordUnits (other + 1) ≤ 2 * t := by
  refine ⟨closestAbove closest, fun half => ?_⟩
  by_contra most
  have tie := le_antisymm (closestAtMost closest (Nat.le_of_not_lt most)) half
  have neighbour := closestHalf closest tie
  omega

theorem closestIncrease (closest : ClosestWord t word) (closestOther : ClosestWord u other) (less : t ≤ u) :
    word ≤ other := by
  obtain even | odd := Nat.mod_two_eq_zero_or_one other
  · have half := (closestAtMostEven closestOther even).1 le_rfl
    exact (closestAtMostEven closest even).2 (by linarith)
  · have half := (closestAboveOdd closestOther odd).not.1 (lt_irrefl _)
    exact Nat.le_of_not_lt ((closestAboveOdd closest odd).not.2 (by linarith))

end Binary64

end ArithmeticFormula
