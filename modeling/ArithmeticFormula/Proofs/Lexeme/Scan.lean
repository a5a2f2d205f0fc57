import ArithmeticFormula.Proofs.Number.Divided
import ArithmeticFormula.Scan

/-! What the scan yields at a place, by the character that stands there, and where a name or a numeral
ends: a parenthesis or an operator goes on with neither. -/
namespace ArithmeticFormula.Scan

variable {c : Char} {text rest : List Char} {l mark : Lexeme}

theorem lexemesNil : lexemes [] = [] := lexemesOfNone rfl

theorem lexemesSingle (step : next? text = some (l, [])) : lexemes text = [l] := by
  rw [lexemesOfSome step, lexemesNil]

theorem markCases (read : Lexeme.mark? c = some mark) :
    (c = '(' ∧ mark = .leftParen) ∨ (c = ')' ∧ mark = .rightParen) ∨
      ∃ op : Operator, c = op.symbol ∧ mark = .operator op := by
  unfold Lexeme.mark? at read
  split at read
  · cases read
    exact .inl ⟨rfl, rfl⟩
  · cases read
    exact .inr (.inl ⟨rfl, rfl⟩)
  · obtain ⟨op, found, rfl⟩ := Option.map_eq_some_iff.1 read
    exact .inr (.inr ⟨op, Operator.ofSymbolIff.1 found, rfl⟩)

theorem markSymbol (op : Operator) : Lexeme.mark? op.symbol = some (.operator op) := by
  cases op <;> rfl

theorem markNotNameStart (read : Lexeme.mark? c = some mark) : isNameStart c = false := by
  obtain ⟨rfl, _⟩ | ⟨rfl, _⟩ | ⟨op, rfl, _⟩ := markCases read
  · decide
  · decide
  · cases op <;> decide

theorem lexemeAtMark (read : Lexeme.mark? c = some mark) : lexemeAt c text = (mark, text) := by
  simp only [lexemeAt, read]

theorem lexemeAtName (start : isNameStart c = true) : lexemeAt c text =
    (.name (String.ofList (c :: text.takeWhile isNamePart)), text.dropWhile isNamePart) := by
  cases read : Lexeme.mark? c with
  | none => simp only [lexemeAt, read, start, if_true]
  | some mark =>
    rw [markNotNameStart read] at start
    cases start

theorem lexemesForall {P : Lexeme → Prop} (each : ∀ c text, P (lexemeAt c text).1) (text : List Char) :
    ∀ l ∈ lexemes text, P l := by
  fun_induction lexemes text with
  | case1 text step => simp
  | case2 text l rest step ih =>
    rw [next?] at step
    intro m member
    obtain rfl | later := List.mem_cons.1 member
    · split at step
      · cases step
      · rename_i c tail _
        obtain ⟨same, _⟩ := Prod.mk.inj (Option.some.inj step)
        exact same ▸ each c tail
    · exact ih m later

def Formed : Lexeme → Prop
  | .name raw => isName raw = true
  | .number n => n.WellFormed
  | .leftParen | .rightParen | .operator _ | .stray _ => True

theorem lexemeAtFormed (c : Char) (text : List Char) : Formed (lexemeAt c text).1 := by
  unfold lexemeAt
  split
  · rename_i mark read
    obtain ⟨_, rfl⟩ | ⟨_, rfl⟩ | ⟨op, _, rfl⟩ := markCases read <;> trivial
  · split
    · rename_i start
      simp [Formed, isName, isNameChars, start]
    · split
      · rename_i read
        exact Numeral.wellFormedRead read
      · trivial

theorem nameShape {raw : String} (member : .name raw ∈ lexemes text) : isName raw = true :=
  lexemesForall lexemeAtFormed text _ member

theorem numeralFormed {n : Numeral} (member : .number n ∈ lexemes text) : n.WellFormed :=
  lexemesForall lexemeAtFormed text _ member

def Delimits (rest : List Char) : Prop :=
  ∀ c, rest.head? = some c → ∃ mark, Lexeme.mark? c = some mark

theorem delimitsNil : Delimits [] := fun _ found => nomatch found

theorem delimitsMark (read : Lexeme.mark? c = some mark) : Delimits (c :: text) := by
  intro d found
  cases found
  exact ⟨mark, read⟩

theorem markContinuesNothing (read : Lexeme.mark? c = some mark) : isNamePart c = false ∧
    c.isDigit = false ∧ c ≠ '.' ∧ ExponentPart.isMarker c = false ∧ isBlank c = false := by
  obtain ⟨rfl, _⟩ | ⟨rfl, _⟩ | ⟨op, rfl, _⟩ := markCases read
  · decide
  · decide
  · cases op <;> decide

theorem delimitsStops (delimits : Delimits rest) : Numeral.Stops rest := by
  intro c found
  obtain ⟨mark, read⟩ := delimits c found
  have continues := markContinuesNothing read
  exact ⟨continues.2.1, continues.2.2.1, continues.2.2.2.1⟩

theorem letterBounds (letter : c.isAlpha = true) :
    (65 ≤ c.toNat ∧ c.toNat ≤ 90) ∨ (97 ≤ c.toNat ∧ c.toNat ≤ 122) := by
  obtain upper | lower := Bool.or_eq_true_iff.1 letter
  · exact .inl (of_decide_eq_true upper)
  · have range : (decide (97 ≤ c.toNat) && decide (c.toNat ≤ 122)) = true := lower
    rw [Bool.and_eq_true, decide_eq_true_eq, decide_eq_true_eq] at range
    exact .inr range

theorem digitBounds (digit : c.isDigit = true) : 48 ≤ c.toNat ∧ c.toNat ≤ 57 :=
  Char.isDigit_iff_toNat.1 digit

theorem namePartBounds (part : isNamePart c = true) : 48 ≤ c.toNat ∧ c.toNat ≤ 122 := by
  simp only [isNamePart, Char.isAlphanum, Bool.or_eq_true, beq_iff_eq] at part
  rcases part with (letter | digit) | rfl
  · have bounds := letterBounds letter
    omega
  · have bounds := digitBounds digit
    omega
  · decide

theorem digitIsNamePart (digit : c.isDigit = true) : isNamePart c = true := by
  simp [isNamePart, Char.isAlphanum, digit]

theorem digitNotNameStart (digit : c.isDigit = true) : isNameStart c = false := by
  have bounds := digitBounds digit
  by_contra named
  simp only [Bool.not_eq_false, isNameStart, Bool.or_eq_true, beq_iff_eq] at named
  rcases named with letter | rfl
  · have range := letterBounds letter
    omega
  · cases digit

theorem namePartNotBlank (part : isNamePart c = true) : isBlank c = false := by
  have bounds := namePartBounds part
  simp [isBlank, blankRanges]
  omega

theorem nextAt (notBlank : isBlank c = false) : next? (c :: text) = some (lexemeAt c text) := by
  simp [next?, dropBlank, notBlank]

theorem nextMark (read : Lexeme.mark? c = some mark) : next? (c :: rest) = some (mark, rest) := by
  rw [nextAt (markContinuesNothing read).2.2.2.2, lexemeAtMark read]

theorem nextName {name : String} (shape : isName name = true) (delimits : Delimits rest) :
    next? (name.toList ++ rest) = some (.name name, rest) := by
  rw [isName] at shape
  have whole : String.ofList name.toList = name := String.ofList_toList
  generalize name.toList = letters at shape whole
  cases letters with
  | nil => cases shape
  | cons first parts =>
    simp only [isNameChars, Bool.and_eq_true, List.all_eq_true] at shape
    have past : ∀ c, rest.head? = some c → isNamePart c = false := by
      intro c found
      obtain ⟨mark, read⟩ := delimits c found
      exact (markContinuesNothing read).1
    have span := spanWhole shape.2 past
    rw [List.cons_append, nextAt (namePartNotBlank (nameStartIsPart shape.1)), lexemeAtName shape.1,
      span.1, span.2, whole]

theorem lexemeAtNumeral {n : Numeral} (read : Numeral.read? (c :: text) = some (n, rest)) :
    lexemeAt c text = (.number n, rest) ∧ isBlank c = false := by
  have other : Lexeme.mark? c = none ∧ isNameStart c = false ∧ isBlank c = false := by
    rcases Numeral.readHead read with digit | rfl
    · refine ⟨?_, digitNotNameStart digit, namePartNotBlank (digitIsNamePart digit)⟩
      cases mark : Lexeme.mark? c with
      | none => rfl
      | some m =>
        rw [(markContinuesNothing mark).2.1] at digit
        cases digit
    · decide
  refine ⟨?_, other.2.2⟩
  simp only [lexemeAt, other.1, other.2.1, read]
  rfl

theorem nextNumeral {n : Numeral} (formed : n.WellFormed) (delimits : Delimits rest) :
    next? (n.chars ++ rest) = some (.number n, rest) := by
  have read := Numeral.readWellFormed formed (delimitsStops delimits)
  have nonempty := Numeral.readNonempty read
  generalize n.chars = chars at read nonempty ⊢
  cases chars with
  | nil => exact absurd rfl nonempty
  | cons c digits =>
    rw [List.cons_append] at read ⊢
    obtain ⟨here, solid⟩ := lexemeAtNumeral read
    rw [nextAt solid, here]

end ArithmeticFormula.Scan
