import ArithmeticFormula.Proofs.Lexeme.Divided

/-! The sign that a numeral goes on with. Between a numeral without an exponent that is followed at once by a
marker, and a digit, a sign is part of a longer numeral, and the two parts are no longer scanned as they are by
themselves. Main statement: a blank, a parenthesis and every operator divide a text, but for a sign in exactly
this place. -/
namespace ArithmeticFormula

def divided (left : String) (d : Char) (right : String) : String := left ++ d.toString ++ right

namespace Numeral

variable {n : Numeral} {text tail rest : List Char} {d : Char}

theorem mantissaSpelled (formed : n.WellFormed) (absent : n.exponent = none) : IsMantissa n.chars := by
  obtain ⟨whole, fraction, exponent⟩ := n
  obtain ⟨digits, decimals, someDigit, _⟩ := formed
  subst absent
  cases fraction with
  | none => simpa [chars] using IsMantissa.whole digits (by simpa using someDigit)
  | some places =>
    have all : Digits places := decimals places rfl
    obtain before | after := someDigit
    · simpa [chars] using IsMantissa.pointAfter digits before all
    · simpa [chars] using IsMantissa.pointBefore digits all after

theorem joinsRead (read : read? text = some (n, tail)) (absent : n.exponent = none)
    (joins : ExponentPart.Joins tail d rest) : ∃ m after, read? (text ++ d :: rest) = some (m, after) ∧ m ≠ n := by
  obtain ⟨⟨marker, rfl, marks⟩, sign, c, found, digit⟩ := joins
  obtain ⟨others, rfl⟩ := List.head?_eq_some_iff.1 found
  obtain ⟨written, rfl⟩ : ∃ written : Sign, d = written.char := by
    rcases sign with rfl | rfl
    · exact ⟨.plus, rfl⟩
    · exact ⟨.minus, rfl⟩
  have scale : IsExponent (marker :: (((some written).map Sign.char).toList ++ [c])) :=
    .marked (some written) (isMarkerIff.1 marks) (by simpa [Digits] using digit) (List.cons_ne_nil _ _)
  have spelled := IsNumeral.scaled (mantissaSpelled (wellFormedRead read) absent) scale
  obtain ⟨m, after, longer, length⟩ := readFound spelled others
  refine ⟨m, after, ?_, ?_⟩
  · rw [← readAppend read, ← longer]
    simp
  · rintro rfl
    simp at length

end Numeral

namespace Scan

variable {text rest after : List Char} {d : Char} {l : Lexeme} {n : Numeral}

theorem lexemeAtNumber {c : Char} (found : lexemeAt c text = (.number n, rest)) :
    Numeral.read? (c :: text) = some (n, rest) := by
  unfold lexemeAt at found
  split at found
  · rename_i mark read
    obtain ⟨_, rfl⟩ | ⟨_, rfl⟩ | ⟨op, _, rfl⟩ := markCases read <;> cases found
  · split at found
    · cases found
    · split at found
      · rename_i numeral tail read
        cases found
        exact read
      · cases found

theorem nextNumber (step : next? text = some (.number n, rest)) :
    Numeral.read? (dropBlank text) = some (n, rest) := by
  unfold next? at step
  split at step
  · cases step
  · rename_i c tail here
    rw [here]
    exact lexemeAtNumber (Option.some.inj step)

theorem joinsNext (joins : Joins (dropBlank text) d rest) (step : next? text = some (l, after)) :
    ∃ m tail, next? (text ++ d :: rest) = some (m, tail) ∧ m ≠ l := by
  obtain ⟨n, tail, read, absent, goes⟩ := joins
  obtain ⟨m, others, longer, differs⟩ := Numeral.joinsRead read absent goes
  have solid : dropBlank text ≠ [] := by
    intro none
    rw [none] at read
    cases read
  rw [← dropBlankAppend solid] at longer
  refine ⟨.number m, others, nextRead longer, ?_⟩
  rw [nextRead read] at step
  cases step
  exact fun same => differs (Lexeme.number.inj same)

theorem lexemesLength (text : List Char) : ((lexemes text).flatMap Lexeme.chars).length ≤ text.length := by
  rw [partedFilter (lexemesParted text)]
  exact List.length_filter_le _ _

theorem markerSolid {c : Char} (marks : ExponentPart.isMarker c = true) : isBlank c = false := by
  rcases isMarkerIff.1 marks with rfl | rfl <;> rfl

theorem markerAfter {c : Char} (marks : ExponentPart.isMarker c = true)
    (step : next? text = some (.number n, after)) (alone : lexemes after = [.name (String.ofList [c])])
    (ending : n.chars ++ [c] <:+ text) : after = [c] := by
  have kept : after.filter (fun c => !isBlank c) = [c] := by
    rw [← partedFilter (lexemesParted after), alone]
    simp [Lexeme.chars]
  have prescribed := (nextPrescribed step).2
  obtain ⟨nonempty, solid⟩ := prescribedSolid prescribed
  have allSolid : ∀ e ∈ n.chars ++ [c], (!isBlank e) = true := by
    intro e member
    rcases List.mem_append.1 member with inside | last
    · simpa using solid e inside
    · rw [List.mem_singleton.1 last, markerSolid marks]
      rfl
  obtain longer | shorter := List.suffix_or_suffix_of_suffix ending (restSuffix step)
  · have more := (longer.filter fun c => !isBlank c).length_le
    rw [kept, List.filter_eq_self.2 allSolid, List.length_append] at more
    have some := List.length_pos_iff.2 nonempty
    simp only [Lexeme.chars, List.length_singleton] at more some
    omega
  · rw [← kept]
    exact (List.filter_eq_self.2 fun e member => allSolid e (shorter.subset member)).symm

theorem fusesAfter (step : next? text = some (l, after)) (fuses : Fuses text d rest)
    (apart : ¬ Joins (dropBlank text) d rest) : Fuses after d rest := by
  obtain ⟨⟨front, n, marker, scanned, absent, marks, ending⟩, sign, digit⟩ := fuses
  rw [lexemesOfSome step] at scanned
  cases front with
  | nil =>
    obtain ⟨rfl, alone⟩ := List.cons.inj scanned
    obtain rfl := markerAfter marks step alone ending
    exact absurd ⟨n, [marker], nextNumber step, absent, ⟨marker, rfl, marks⟩, sign, digit⟩ apart
  | cons m front =>
    have later : lexemes after = front ++ [.number n, .name (String.ofList [marker])] :=
      (List.cons.inj scanned).2
    have long := lexemesLength after
    rw [later, List.flatMap_append, List.length_append] at long
    refine ⟨⟨front, n, marker, later, absent, marks, ?_⟩, sign, digit⟩
    apply List.suffix_of_suffix_length_le ending (restSuffix step)
    simp only [List.flatMap_cons, List.flatMap_nil, Lexeme.chars, String.toList_ofList, List.append_nil,
      List.length_append, List.length_singleton] at long ⊢
    omega

theorem fusedLexemes (divides : Divides d) (fuses : Fuses text d rest) :
    lexemes (text ++ d :: rest) ≠ lexemes text ++ lexemes (d :: rest) := by
  fun_induction lexemes text with
  | case1 text step =>
    obtain ⟨front, n, marker, scanned, _⟩ := fuses.ends
    rw [lexemesOfNone step] at scanned
    simp at scanned
  | case2 text l after step ih =>
    by_cases joins : Joins (dropBlank text) d rest
    · obtain ⟨m, tail, other, differs⟩ := joinsNext joins step
      rw [lexemesOfSome other, List.cons_append]
      exact fun same => differs (List.cons.inj same).1
    · rw [lexemesOfSome (nextDivided divides step joins), List.cons_append]
      exact fun same => ih (fusesAfter step fuses joins) (List.cons.inj same).2

theorem lexemesMarkIff {mark : Lexeme} (read : Lexeme.mark? d = some mark) :
    lexemes (text ++ d :: rest) = lexemes text ++ mark :: lexemes rest ↔ ¬ Fuses text d rest := by
  refine ⟨fun same fuses => fusedLexemes (markDivides read) fuses ?_, lexemesMark read⟩
  rw [same, lexemesOfSome (nextMark read)]

end Scan

theorem dividedChars (left : String) (d : Char) (right : String) :
    (divided left d right).toList = left.toList ++ d :: right.toList := by
  simp [divided]

theorem dividedLexemes (left right : String) :
    (∀ d, isBlank d = true → lexemesOf (divided left d right) = lexemesOf left ++ lexemesOf right) ∧
    (∀ entry ∈ [('(', Lexeme.leftParen), (')', .rightParen), ('*', .operator .multiply), ('/', .operator .divide)],
      lexemesOf (divided left entry.1 right) = lexemesOf left ++ entry.2 :: lexemesOf right) ∧
    ∀ entry ∈ [('+', Lexeme.operator .add), ('-', .operator .subtract)],
      (lexemesOf (divided left entry.1 right) = lexemesOf left ++ entry.2 :: lexemesOf right ↔
        ¬ Scan.Fuses left.toList entry.1 right.toList) := by
  simp only [lexemesOf, dividedChars]
  refine ⟨fun d blank => Scan.lexemesBlank blank _ _, fun entry member => ?_, fun entry member => ?_⟩
  · have listed : Lexeme.mark? entry.1 = some entry.2 ∧ entry.1 ≠ '+' ∧ entry.1 ≠ '-' := by
      revert entry
      decide
    exact Scan.lexemesMark listed.1 fun fuses => fuses.sign.elim listed.2.1 listed.2.2
  · have listed : Lexeme.mark? entry.1 = some entry.2 := by
      revert entry
      decide
    exact Scan.lexemesMarkIff listed

theorem markerFuses : lexemesOf (divided "2e" '+' "5") ≠
    lexemesOf "2e" ++ .operator .add :: lexemesOf "5" := by
  have scanned : Scan.lexemes ['2', 'e'] = [.number ⟨['2'], none, none⟩, .name "e"] := by
    iterate 2 rw [Scan.lexemesOfSome rfl]
    rw [Scan.lexemesOfNone rfl]
    rfl
  have fuses : Scan.Fuses "2e".toList '+' "5".toList :=
    ⟨⟨[], _, 'e', scanned, rfl, rfl, List.suffix_refl _⟩, .inl rfl, '5', rfl, rfl⟩
  have exact := (dividedLexemes "2e" "5").2.2 _ List.mem_cons_self
  exact fun same => exact.1 same fuses

end ArithmeticFormula
