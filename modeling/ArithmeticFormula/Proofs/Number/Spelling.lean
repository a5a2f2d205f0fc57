import ArithmeticFormula.Proofs.Number.Written

/-! Numerals by their spelling: digits with at most one point, at least one digit before or after it, and
an exponent that has a digit. Main statements: reading finds the longest such word at the start of a text,
and it finds nothing exactly where none stands. -/
namespace ArithmeticFormula

structure Longest (kind : List Char → Prop) (text word rest : List Char) : Prop where
  parts : word ++ rest = text
  spelled : kind word
  longest : ∀ other tail, other ++ tail = text → kind other → other.length ≤ word.length

def Begins (kind : List Char → Prop) (text : List Char) : Prop :=
  ∃ word rest, word ++ rest = text ∧ kind word

def Digits (text : List Char) : Prop := ∀ c ∈ text, c.isDigit = true

inductive IsMantissa : List Char → Prop where
  | whole {digits : List Char} (all : Digits digits) (nonempty : digits ≠ []) : IsMantissa digits
  | pointAfter {digits places : List Char} (all : Digits digits) (nonempty : digits ≠ [])
      (decimals : Digits places) : IsMantissa (digits ++ '.' :: places)
  | pointBefore {digits places : List Char} (all : Digits digits) (decimals : Digits places)
      (nonempty : places ≠ []) : IsMantissa (digits ++ '.' :: places)

inductive IsExponent : List Char → Prop where
  | marked {marker : Char} (sign : Option Sign) {digits : List Char} (marks : marker = 'e' ∨ marker = 'E')
      (all : Digits digits) (nonempty : digits ≠ []) :
      IsExponent (marker :: ((sign.map Sign.char).toList ++ digits))

inductive IsNumeral : List Char → Prop where
  | plain {mantissa : List Char} (spelled : IsMantissa mantissa) : IsNumeral mantissa
  | scaled {mantissa exponent : List Char} (spelled : IsMantissa mantissa) (scale : IsExponent exponent) :
      IsNumeral (mantissa ++ exponent)

variable {kind : List Char → Prop} {text word rest other tail : List Char}

theorem longestUnique (first : Longest kind text word rest) (second : Longest kind text other tail) :
    word = other ∧ rest = tail := by
  have length : word.length = other.length :=
    Nat.le_antisymm (second.longest word rest first.parts first.spelled)
      (first.longest other tail second.parts second.spelled)
  exact List.append_inj (first.parts.trans second.parts.symm) length

theorem longestBegins (found : Longest kind text word rest) : Begins kind text :=
  ⟨word, rest, found.parts, found.spelled⟩

theorem digitsTaken (text : List Char) : Digits (text.takeWhile Char.isDigit) :=
  fun _ member => List.mem_takeWhile_imp member

theorem isMarkerIff {c : Char} : ExponentPart.isMarker c = true ↔ c = 'e' ∨ c = 'E' := by
  simp [ExponentPart.isMarker]

def EndsMantissa (rest : List Char) : Prop :=
  ∀ c, rest.head? = some c → c.isDigit = false ∧ c ≠ '.'

theorem exponentEndsMantissa (spelled : IsExponent word) : EndsMantissa (word ++ rest) := by
  cases spelled with
  | marked sign marks all nonempty =>
    intro c found
    cases found
    rcases marks with rfl | rfl <;> decide

namespace ExponentPart

theorem readSpelled {part : ExponentPart} (read : read? text = some (part, rest)) :
    IsExponent part.chars := by
  cases text with
  | nil => cases read
  | cons marker text =>
    simp only [read?] at read
    split at read
    · rename_i marks
      split at read
      · cases read
      · rename_i digits
        cases read
        exact .marked _ (isMarkerIff.1 marks) (digitsTaken _) (by simpa using digits)
    · cases read

theorem splitSigned (sign : Option Sign) {digits : List Char} (all : Digits digits)
    (nonempty : digits ≠ []) :
    Sign.split ((sign.map Sign.char).toList ++ (digits ++ rest)) = (sign, digits ++ rest) := by
  cases sign with
  | some sign => cases sign <;> rfl
  | none =>
    cases digits with
    | nil => exact absurd rfl nonempty
    | cons c digits =>
      have digit := all c List.mem_cons_self
      simp only [Option.map_none, Option.toList_none, List.nil_append, List.cons_append]
      unfold Sign.split
      split
      · rename_i same
        cases same
        cases digit
      · rename_i same
        cases same
        cases digit
      · rfl

theorem readFound (spelled : IsExponent word) (rest : List Char) :
    ∃ part tail, read? (word ++ rest) = some (part, tail) ∧ word.length ≤ part.chars.length := by
  cases spelled with
  | @marked marker sign digits marks all nonempty =>
    have found := isMarkerIff.2 marks
    have some : ((digits ++ rest).takeWhile Char.isDigit).isEmpty = false := by
      rw [List.takeWhile_append_of_pos all]
      simp [nonempty]
    refine ⟨⟨marker, sign, (digits ++ rest).takeWhile Char.isDigit⟩, (digits ++ rest).dropWhile Char.isDigit,
      ?_, ?_⟩
    · simp only [List.cons_append, List.append_assoc, read?, found, if_true,
        splitSigned sign all nonempty, some]
      rfl
    · rw [List.takeWhile_append_of_pos all]
      simp only [chars, List.length_cons, List.length_append]
      omega

end ExponentPart

namespace Numeral

variable {n : Numeral}

def finish (whole : List Char) (fraction : Option (List Char)) (tail : List Char) : Numeral × List Char :=
  match ExponentPart.read? tail with
  | some (part, rest) => (⟨whole, fraction, some part⟩, rest)
  | none => (⟨whole, fraction, none⟩, tail)

theorem readFinish (text : List Char) : read? text =
    if (text.takeWhile Char.isDigit).isEmpty &&
        ((splitFraction (text.dropWhile Char.isDigit)).1.getD []).isEmpty then none
    else some (finish (text.takeWhile Char.isDigit) (splitFraction (text.dropWhile Char.isDigit)).1
      (splitFraction (text.dropWhile Char.isDigit)).2) := by
  simp only [read?, finish]
  cases ExponentPart.read? (splitFraction (text.dropWhile Char.isDigit)).2 <;> rfl

/- A mantissa is read to its end, and further only while digits or a point go on with it. -/
structure MantissaRead (word rest whole : List Char) (fraction : Option (List Char))
    (more tail : List Char) : Prop where
  parts : more ++ tail = rest
  ends : EndsMantissa rest → more = []
  spelling : whole ++ (fraction.map ('.' :: ·)).getD [] = word ++ more
  read : read? (word ++ rest) = some (finish whole fraction tail)

theorem readWhole {digits : List Char} (all : Digits digits) (nonempty : digits ≠ []) (rest : List Char) :
    MantissaRead digits rest (digits ++ rest.takeWhile Char.isDigit)
      (splitFraction (rest.dropWhile Char.isDigit)).1
      (rest.takeWhile Char.isDigit ++
        ((splitFraction (rest.dropWhile Char.isDigit)).1.map ('.' :: ·)).getD [])
      (splitFraction (rest.dropWhile Char.isDigit)).2 where
  parts := by rw [List.append_assoc, splitFractionAppend, List.takeWhile_append_dropWhile]
  ends := by
    intro ends
    cases rest with
    | nil => rfl
    | cons c rest =>
      have stops := ends c rfl
      simp [stops.1, splitFraction, stops.2]
  spelling := by simp
  read := by
    rw [readFinish, List.takeWhile_append_of_pos all, List.dropWhile_append_of_pos all]
    simp [nonempty]

theorem readPoint {digits places : List Char} (all : Digits digits) (decimals : Digits places)
    (nonempty : digits ≠ [] ∨ places ≠ []) (rest : List Char) :
    MantissaRead (digits ++ '.' :: places) rest digits (some (places ++ rest.takeWhile Char.isDigit))
      (rest.takeWhile Char.isDigit) (rest.dropWhile Char.isDigit) where
  parts := List.takeWhile_append_dropWhile
  ends := by
    intro ends
    cases rest with
    | nil => rfl
    | cons c rest => simp [(ends c rfl).1]
  spelling := by simp
  read := by
    have point : ∀ c, ('.' :: (places ++ rest)).head? = some c → c.isDigit = false := by
      intro c found
      cases found
      rfl
    have split := spanWhole all point
    have someDigit : (digits.isEmpty && (places ++ rest.takeWhile Char.isDigit).isEmpty) = false := by
      rcases nonempty with before | after
      · simp [before]
      · simp [after]
    rw [List.append_assoc, List.cons_append, readFinish, split.1, split.2]
    simp only [splitFraction, List.takeWhile_append_of_pos decimals,
      List.dropWhile_append_of_pos decimals, Option.getD_some, someDigit]
    rfl

theorem readMantissa (spelled : IsMantissa word) (rest : List Char) :
    ∃ whole fraction more tail, MantissaRead word rest whole fraction more tail := by
  cases spelled with
  | whole all nonempty => exact ⟨_, _, _, _, readWhole all nonempty rest⟩
  | pointAfter all nonempty decimals => exact ⟨_, _, _, _, readPoint all decimals (.inl nonempty) rest⟩
  | pointBefore all decimals nonempty => exact ⟨_, _, _, _, readPoint all decimals (.inr nonempty) rest⟩

theorem finishLength (whole : List Char) (fraction : Option (List Char)) (tail : List Char) :
    (whole ++ (fraction.map ('.' :: ·)).getD []).length ≤ (finish whole fraction tail).1.chars.length := by
  unfold finish
  split <;> simp only [chars, List.length_append] <;> omega

theorem readFound (spelled : IsNumeral word) (rest : List Char) :
    ∃ n tail, read? (word ++ rest) = some (n, tail) ∧ word.length ≤ n.chars.length := by
  cases spelled with
  | plain mantissa =>
    obtain ⟨whole, fraction, more, tail, reads⟩ := readMantissa mantissa rest
    refine ⟨_, _, reads.read, Nat.le_trans ?_ (finishLength whole fraction tail)⟩
    rw [reads.spelling, List.length_append]
    exact Nat.le_add_right _ _
  | @scaled mantissa exponent spelled scale =>
    obtain ⟨whole, fraction, more, tail, reads⟩ := readMantissa spelled (exponent ++ rest)
    -- the marker ends the mantissa, so the exponent is read where it stands
    obtain rfl := reads.ends (exponentEndsMantissa scale)
    obtain rfl : tail = exponent ++ rest := reads.parts
    obtain ⟨part, after, found, length⟩ := ExponentPart.readFound scale rest
    have spelling := congrArg List.length reads.spelling
    refine ⟨⟨whole, fraction, some part⟩, after, ?_, ?_⟩
    · rw [List.append_assoc, reads.read, finish, found]
    · simp only [chars, Option.map_some, Option.getD_some, List.length_append, List.append_nil] at spelling ⊢
      omega

theorem splitFractionDigits {text places : List Char} (found : (splitFraction text).1 = some places) :
    Digits places := by
  unfold splitFraction at found
  split at found
  · cases found
    exact digitsTaken _
  · cases found

theorem readSpelled (read : read? text = some (n, rest)) : IsNumeral n.chars := by
  rw [readFinish] at read
  split at read
  · cases read
  · rename_i someDigit
    have mantissa : IsMantissa (text.takeWhile Char.isDigit ++
        ((splitFraction (text.dropWhile Char.isDigit)).1.map ('.' :: ·)).getD []) := by
      have decimals := @splitFractionDigits (text.dropWhile Char.isDigit)
      generalize (splitFraction (text.dropWhile Char.isDigit)).1 = fraction at someDigit decimals
      cases fraction with
      | none => simpa using IsMantissa.whole (digitsTaken text) (by simpa using someDigit)
      | some places =>
        by_cases before : text.takeWhile Char.isDigit = []
        · exact .pointBefore (digitsTaken text) (decimals rfl) (by simpa [before] using someDigit)
        · exact .pointAfter (digitsTaken text) before (decimals rfl)
    generalize text.takeWhile Char.isDigit = whole at mantissa read
    generalize splitFraction (text.dropWhile Char.isDigit) = split at mantissa read
    unfold finish at read
    split at read
    · rename_i part after found
      cases read
      exact .scaled mantissa (ExponentPart.readSpelled found)
    · cases read
      simpa [chars] using IsNumeral.plain mantissa

theorem readLongest (read : read? text = some (n, rest)) : Longest IsNumeral text n.chars rest where
  parts := readAppend read
  spelled := readSpelled read
  longest := by
    intro other tail parts spelled
    obtain ⟨m, after, found, length⟩ := readFound spelled tail
    rw [parts, read] at found
    cases found
    exact length

theorem readNone : read? text = none ↔ ¬ Begins IsNumeral text := by
  cases read : read? text with
  | none =>
    refine ⟨fun _ begins => ?_, fun _ => rfl⟩
    obtain ⟨word, tail, rfl, spelled⟩ := begins
    obtain ⟨n, after, found, _⟩ := readFound spelled tail
    rw [read] at found
    cases found
  | some found =>
    obtain ⟨n, rest⟩ := found
    exact ⟨(nomatch ·), fun absent => absurd (longestBegins (readLongest read)) absent⟩

end Numeral

variable {c : Char}

theorem mantissaChar (spelled : IsMantissa word) (member : c ∈ word) : c.isDigit = true ∨ c = '.' := by
  cases spelled with
  | whole all nonempty => exact .inl (all c member)
  | pointAfter all _ decimals | pointBefore all decimals _ =>
    rcases List.mem_append.1 member with digit | later
    · exact .inl (all c digit)
    · exact (List.mem_cons.1 later).elim .inr fun place => .inl (decimals c place)

theorem exponentChar (spelled : IsExponent word) (member : c ∈ word) :
    c.isDigit = true ∨ c ∈ ['e', 'E', '+', '-'] := by
  cases spelled with
  | marked sign marks all nonempty =>
    rcases List.mem_cons.1 member with rfl | later
    · rcases marks with rfl | rfl <;> decide
    · rcases List.mem_append.1 later with signed | digit
      · obtain ⟨written, rfl, rfl⟩ : ∃ written, sign = some written ∧ c = written.char := by
          simpa [eq_comm] using signed
        cases written <;> decide
      · exact .inl (all c digit)

theorem numeralChar (spelled : IsNumeral word) (member : c ∈ word) :
    c.isDigit = true ∨ c ∈ ['.', 'e', 'E', '+', '-'] := by
  have ofMantissa : c.isDigit = true ∨ c = '.' → c.isDigit = true ∨ c ∈ ['.', 'e', 'E', '+', '-'] :=
    Or.imp_right fun point => point ▸ List.mem_cons_self
  cases spelled with
  | plain mantissa => exact ofMantissa (mantissaChar mantissa member)
  | scaled mantissa scale =>
    rcases List.mem_append.1 member with before | after
    · exact ofMantissa (mantissaChar mantissa before)
    · exact (exponentChar scale after).imp_right (List.mem_cons_of_mem _)

theorem numeralNonempty (spelled : IsNumeral word) : word ≠ [] := by
  have mantissa : ∀ {part : List Char}, IsMantissa part → part ≠ [] := by
    intro part spelled
    cases spelled with
    | whole all nonempty => exact nonempty
    | pointAfter all nonempty decimals | pointBefore all decimals nonempty => simp
  cases spelled with
  | plain spelled => exact mantissa spelled
  | scaled spelled scale => simp [mantissa spelled]

end ArithmeticFormula
