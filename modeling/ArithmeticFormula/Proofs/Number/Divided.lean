import ArithmeticFormula.Proofs.Number.Spelling

/-! Numerals beside other text. A numeral that was read somewhere is read again before any text that cannot go
on with it. A character that is no digit, no point and no exponent marker divides a text: reading in front of
it knows nothing of what follows. The one exception is a sign between a marker and a digit. -/
namespace ArithmeticFormula

variable {text tail rest : List Char} {d : Char}

theorem spanDivided {p : Char → Bool} (stops : p d = false) (text rest : List Char) :
    (text ++ d :: rest).takeWhile p = text.takeWhile p ∧
      (text ++ d :: rest).dropWhile p = text.dropWhile p ++ d :: rest := by
  induction text with
  | nil => simp [stops]
  | cons c text ih => cases here : p c <;> simp [here, ih]

namespace ExponentPart

structure WellFormed (part : ExponentPart) : Prop where
  marker : isMarker part.marker = true
  digits : Digits part.digits
  nonempty : part.digits ≠ []

theorem wellFormedRead {part : ExponentPart} (read : read? text = some (part, rest)) : part.WellFormed := by
  cases text with
  | nil => cases read
  | cons marker text =>
    simp only [read?] at read
    split at read
    · rename_i marks
      split at read
      · cases read
      · rename_i someDigit
        cases read
        exact ⟨marks, digitsTaken _, by simpa using someDigit⟩
    · cases read

theorem readWellFormed {part : ExponentPart} (formed : part.WellFormed)
    (past : ∀ c, rest.head? = some c → c.isDigit = false) :
    read? (part.chars ++ rest) = some (part, rest) := by
  obtain ⟨marker, sign, digits⟩ := part
  obtain ⟨marks, all, nonempty⟩ := formed
  have span := spanWhole all past
  have someDigit : digits.isEmpty = false := by simpa using nonempty
  simp only [chars, List.cons_append, List.append_assoc, read?, marks, if_true,
    splitSigned sign all nonempty, span.1, span.2, someDigit]
  rfl

theorem digitlessTaken (past : ∀ c, rest.head? = some c → c.isDigit = false) :
    rest.takeWhile Char.isDigit = [] := by
  cases rest with
  | nil => rfl
  | cons c rest => simp [past c rfl]

theorem signDigitless (notDigit : d.isDigit = false)
    (past : d = '+' ∨ d = '-' → ∀ c, rest.head? = some c → c.isDigit = false) :
    (Sign.split (d :: rest)).2.takeWhile Char.isDigit = [] := by
  unfold Sign.split
  split
  · rename_i same
    cases same
    exact digitlessTaken (past (.inl rfl))
  · rename_i same
    cases same
    exact digitlessTaken (past (.inr rfl))
  · simp [notDigit]

def Joins (tail : List Char) (d : Char) (rest : List Char) : Prop :=
  (∃ marker, tail = [marker] ∧ isMarker marker = true) ∧ (d = '+' ∨ d = '-') ∧
    ∃ c, rest.head? = some c ∧ c.isDigit = true

theorem splitDivided {c : Char} (text rest : List Char) :
    Sign.split (c :: text ++ rest) = ((Sign.split (c :: text)).1, (Sign.split (c :: text)).2 ++ rest) := by
  simp only [Sign.split]
  split <;> simp_all

theorem readDivided (unmarked : isMarker d = false) (notDigit : d.isDigit = false)
    (apart : ¬ Joins text d rest) :
    read? (text ++ d :: rest) = (read? text).map fun found => (found.1, found.2 ++ d :: rest) := by
  cases text with
  | nil =>
    simp only [List.nil_append, read?, unmarked]
    rfl
  | cons marker text =>
    cases marks : isMarker marker with
    | false =>
      rw [List.cons_append, read?, read?, marks]
      rfl
    | true =>
      cases text with
      | nil =>
        have nothing : (Sign.split (d :: rest)).2.takeWhile Char.isDigit = [] := by
          refine signDigitless notDigit fun sign c found => ?_
          simpa using fun digit => apart ⟨⟨_, rfl, marks⟩, sign, c, found, digit⟩
        have alone : (Sign.split []).2.takeWhile Char.isDigit = [] := rfl
        simp only [List.cons_append, List.nil_append, read?, marks, if_true, nothing, alone]
        rfl
      | cons c text =>
        have span := spanDivided notDigit (Sign.split (c :: text)).2 rest
        rw [List.cons_append, read?, read?, splitDivided]
        simp only [span.1, span.2, marks, if_true]
        split <;> rfl

end ExponentPart

namespace Numeral

variable {n : Numeral}

structure WellFormed (n : Numeral) : Prop where
  whole : Digits n.whole
  fraction : ∀ places, n.fraction = some places → Digits places
  someDigit : n.whole ≠ [] ∨ n.fraction.getD [] ≠ []
  exponent : ∀ part, n.exponent = some part → part.WellFormed

theorem wellFormedRead (read : read? text = some (n, rest)) : n.WellFormed := by
  rw [readFinish] at read
  split at read
  · cases read
  · rename_i someDigit
    have decimals := @splitFractionDigits (text.dropWhile Char.isDigit)
    have digit : text.takeWhile Char.isDigit ≠ [] ∨
        (splitFraction (text.dropWhile Char.isDigit)).1.getD [] ≠ [] := by
      simpa [or_iff_not_imp_left] using someDigit
    unfold finish at read
    split at read
    · rename_i part after found
      cases read
      refine ⟨digitsTaken text, fun places => decimals, digit, fun other same => ?_⟩
      cases same
      exact ExponentPart.wellFormedRead found
    · cases read
      exact ⟨digitsTaken text, fun places => decimals, digit, fun _ absent => nomatch absent⟩

theorem positionalWellFormed (positional : n.Positional) : n.WellFormed where
  whole := positional.whole
  fraction places found := (positional.fraction places found).2
  someDigit := .inl positional.wholeNonempty
  exponent part found := by simp [positional.exponent] at found

theorem exponentPast {part : ExponentPart} (formed : part.WellFormed) (rest : List Char) :
    EndsMantissa (part.chars ++ rest) := by
  intro c found
  cases found
  rcases isMarkerIff.1 formed.marker with same | same <;> rw [same] <;> decide

theorem finishWellFormed (formed : n.WellFormed) (stops : Stops rest) :
    finish n.whole n.fraction ((n.exponent.map ExponentPart.chars).getD [] ++ rest) = (n, rest) ∧
      EndsMantissa ((n.exponent.map ExponentPart.chars).getD [] ++ rest) := by
  obtain ⟨whole, fraction, exponent⟩ := n
  cases exponent with
  | none =>
    refine ⟨?_, fun c found => ⟨(stops c found).1, (stops c found).2.1⟩⟩
    simp only [Option.map_none, Option.getD_none, List.nil_append, finish, noExponent stops]
  | some part =>
    have scale := formed.exponent part rfl
    have read := ExponentPart.readWellFormed scale fun c found => (stops c found).1
    refine ⟨?_, exponentPast scale rest⟩
    simp only [Option.map_some, Option.getD_some, finish, read]

theorem splitPointless (pointless : text.head? ≠ some '.') : splitFraction text = (none, text) := by
  unfold splitFraction
  split
  · exact absurd rfl pointless
  · rfl

theorem readWellFormed (formed : n.WellFormed) (stops : Stops rest) :
    read? (n.chars ++ rest) = some (n, rest) := by
  obtain ⟨finished, ends⟩ := finishWellFormed formed stops
  obtain ⟨whole, fraction, exponent⟩ := n
  generalize tailed : (Option.map ExponentPart.chars exponent).getD [] ++ rest = tail at finished ends
  have past : ∀ c, tail.head? = some c → c.isDigit = false := fun c found => (ends c found).1
  have pointless : tail.head? ≠ some '.' := fun found => (ends '.' found).2 rfl
  have someDigit := formed.someDigit
  cases fraction with
  | none =>
    have span := spanWhole formed.whole past
    have nonempty : whole.isEmpty = false := by simpa using someDigit
    rw [chars, List.append_assoc, tailed, readFinish]
    simp only [Option.map_none, Option.getD_none, List.append_nil, span.1, span.2, splitPointless pointless, nonempty,
      Bool.false_and, finished]
    rfl
  | some places =>
    have point : ∀ c, ('.' :: (places ++ tail)).head? = some c → c.isDigit = false := by
      intro c found
      cases found
      rfl
    have span := spanWhole formed.whole point
    have decimals := spanWhole (formed.fraction places rfl) past
    have nonempty : (whole.isEmpty && places.isEmpty) = false := by
      simpa [or_iff_not_imp_left] using someDigit
    rw [chars, List.append_assoc, tailed, readFinish]
    simp only [Option.map_some, Option.getD_some, List.append_assoc, List.cons_append, span.1, span.2,
      splitFraction, decimals.1, decimals.2, nonempty, finished]
    rfl

theorem readAlone (formed : n.WellFormed) : read? n.chars = some (n, []) := by
  have stops : Stops [] := fun _ found => nomatch found
  have read := readWellFormed formed stops
  rwa [List.append_nil] at read

theorem splitFractionDivided (notPoint : d ≠ '.') (notDigit : d.isDigit = false) (text rest : List Char) :
    splitFraction (text ++ d :: rest) = ((splitFraction text).1, (splitFraction text).2 ++ d :: rest) := by
  cases text with
  | nil => exact splitPointless (by simpa using notPoint)
  | cons c text =>
    by_cases point : c = '.'
    · subst point
      have span := spanDivided notDigit text rest
      simp only [List.cons_append, splitFraction, span.1, span.2]
    · have alone : (c :: text).head? ≠ some '.' := by simpa using point
      have before : (c :: text ++ d :: rest).head? ≠ some '.' := by simpa using point
      rw [splitPointless alone, splitPointless before]

theorem readHead {c : Char} {found : Numeral × List Char} (read : read? (c :: text) = some found) :
    c.isDigit = true ∨ c = '.' := by
  by_contra other
  obtain ⟨digit, point⟩ := not_or.1 other
  have pointless : (c :: text).head? ≠ some '.' := by simpa using point
  simp [readFinish, digit, splitPointless pointless] at read

/- A character that ends a numeral before it, if it is not between a marker and a digit. -/
structure Divides (d : Char) : Prop where
  notDigit : d.isDigit = false
  notPoint : d ≠ '.'
  unmarked : ExponentPart.isMarker d = false

theorem finishDivided (divides : Divides d) (whole : List Char) (fraction : Option (List Char))
    (apart : ¬ ExponentPart.Joins tail d rest) : finish whole fraction (tail ++ d :: rest) =
      ((finish whole fraction tail).1, (finish whole fraction tail).2 ++ d :: rest) := by
  rw [finish, finish, ExponentPart.readDivided divides.unmarked divides.notDigit apart]
  cases ExponentPart.read? tail <;> rfl

theorem finishJoins (joins : ExponentPart.Joins tail d rest) (whole : List Char)
    (fraction : Option (List Char)) : finish whole fraction tail = (⟨whole, fraction, none⟩, tail) := by
  obtain ⟨⟨marker, rfl, marks⟩, _, _⟩ := joins
  have nothing : ExponentPart.read? [marker] = none := by
    simp only [ExponentPart.read?, marks, if_true]
    rfl
  rw [finish, nothing]

theorem readDivided (divides : Divides d)
    (apart : ∀ n tail, read? text = some (n, tail) → n.exponent = none → ¬ ExponentPart.Joins tail d rest) :
    read? (text ++ d :: rest) = (read? text).map fun found => (found.1, found.2 ++ d :: rest) := by
  have span := spanDivided divides.notDigit text rest
  have fraction := splitFractionDivided divides.notPoint divides.notDigit (text.dropWhile Char.isDigit) rest
  rw [readFinish] at apart ⊢
  rw [readFinish, span.1, span.2, fraction]
  split
  · rfl
  · rename_i someDigit
    rw [if_neg someDigit] at apart
    rw [Option.map_some, finishDivided divides]
    intro joins
    exact apart _ _ (congrArg some (finishJoins joins _ _)) rfl joins

theorem readDividedSome (divides : Divides d) (text rest : List Char) :
    (read? (text ++ d :: rest)).isSome = (read? text).isSome := by
  have span := spanDivided divides.notDigit text rest
  have fraction := splitFractionDivided divides.notPoint divides.notDigit (text.dropWhile Char.isDigit) rest
  rw [readFinish, readFinish, span.1, span.2, fraction]
  split <;> rfl

end Numeral
end ArithmeticFormula
