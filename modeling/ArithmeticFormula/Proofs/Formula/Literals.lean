import ArithmeticFormula.Formula
import ArithmeticFormula.Number.Numeral
import ArithmeticFormula.Proofs.Formula.Canonical
import ArithmeticFormula.Proofs.Lexeme.Scan
import ArithmeticFormula.Proofs.Number.Bytewise
import ArithmeticFormula.Proofs.Number.Rounded

/-! The numbers of a formula. Every numeral that the scan yields is a whole literal, so it is refused for its
size alone. Main statements: a literal is refused exactly from 2^1024 - 2^970 on, else it is the double that its
exact decimal value rounds to, and larger literals are no smaller doubles; the text of a finite double with the
sign clear is digits with at most one point between them, it is read to its end and no further, also before an
operator or a closing parenthesis, and its value is the double. -/
namespace ArithmeticFormula

variable {n m : Numeral} {text other : String} {x y : Binary64}

theorem Sign.splitUnsigned {c : Char} {text : List Char} (unsigned : c.isDigit = true ∨ c = '.') :
    Sign.split (c :: text) = (none, c :: text) := by
  unfold Sign.split
  split
  · rename_i same
    cases same
    exact absurd unsigned (by decide)
  · rename_i same
    cases same
    exact absurd unsigned (by decide)
  · rfl

theorem literalWellFormed (formed : n.WellFormed) : Literal.ofText? n.text = n.value? := by
  have read := Numeral.readAlone formed
  have nonempty := Numeral.readNonempty read
  rw [Literal.ofText?, Numeral.text, String.toList_ofList, Literal.ofChars?]
  generalize n.chars = chars at read nonempty
  cases chars with
  | nil => exact absurd rfl nonempty
  | cons c digits =>
    simp only [Sign.splitUnsigned (Numeral.readHead read), read]
    cases n.value? <;> rfl

theorem literalToken (member : .number n ∈ lexemesOf text) (naming : Naming) :
    (Lexeme.number n).toToken naming =
      (Literal.ofText? n.text).elim (.error (.invalidNumber n.text)) (.ok ∘ .number) := by
  rw [literalWellFormed (Scan.numeralFormed member), toTokenNumber]

theorem literalRefused (member : .number n ∈ lexemesOf text) :
    Literal.ofText? n.text = none ↔ 2 ^ 1024 - 2 ^ 970 ≤ n.exactValue := by
  rw [literalWellFormed (Scan.numeralFormed member), ← Numeral.decimalValue, ← Decimal.nearestNoneIff, Numeral.value?]

theorem literalReads (member : .number n ∈ lexemesOf text) (found : Literal.ofText? n.text = some x) :
    x.Reads n.exactValue := by
  rw [literalWellFormed (Scan.numeralFormed member), Numeral.value?] at found
  rw [← Numeral.decimalValue]
  exact Decimal.nearestReads found

theorem literalsIncrease (member : .number n ∈ lexemesOf text) (memberOther : .number m ∈ lexemesOf other)
    (less : n.exactValue ≤ m.exactValue) (found : Literal.ofText? n.text = some x)
    (foundOther : Literal.ofText? m.text = some y) : x.value ≤ y.value := by
  rw [literalWellFormed (Scan.numeralFormed member), Numeral.value?] at found
  rw [literalWellFormed (Scan.numeralFormed memberOther), Numeral.value?] at foundOther
  rw [← Numeral.decimalValue, ← Numeral.decimalValue] at less
  exact Decimal.nearestIncrease found foundOther less

theorem literalsRounded (text : String) :
    (∀ n, .number n ∈ lexemesOf text →
      (∀ naming, (Lexeme.number n).toToken naming =
        (Literal.ofText? n.text).elim (.error (.invalidNumber n.text)) (.ok ∘ .number)) ∧
      (Literal.ofText? n.text = none ↔ 2 ^ 1024 - 2 ^ 970 ≤ n.exactValue) ∧
      (n.exactValue < 2 ^ 1024 - 2 ^ 970 →
        ∃ x, Literal.ofText? n.text = some x ∧ x.Reads n.exactValue) ∧
      ∀ other m, .number m ∈ lexemesOf other → n.exactValue ≤ m.exactValue → ∀ x y,
        Literal.ofText? n.text = some x → Literal.ofText? m.text = some y → x.value ≤ y.value) ∧
    ∀ naming f, Formula.ofTextWith naming text = .ok f → ∀ x, .number x ∈ f.tokens → x.Plain := by
  refine ⟨fun n member => ⟨literalToken member, literalRefused member, fun small => ?_,
    fun other m found less x y => literalsIncrease member found less⟩, fun naming f built x member => ?_⟩
  · cases read : Literal.ofText? n.text with
    | none => exact absurd ((literalRefused member).1 read) small.not_ge
    | some x => exact ⟨x, rfl, literalReads member read⟩
  · exact (builtOfText built).kept _ member

theorem halfToEven : ∃ n, .number n ∈ lexemesOf "9007199254740993" ∧ n.exactValue = 2 ^ 53 + 1 ∧
    Literal.ofText? n.text = some ⟨0x4340000000000000⟩ ∧
    Binary64.Reads n.exactValue ⟨0x4340000000000000⟩ := by
  let n : Numeral := ⟨"9007199254740993".toList, none, none⟩
  have step : Scan.next? "9007199254740993".toList = some (.number n, []) := by decide +kernel
  have member : .number n ∈ lexemesOf "9007199254740993" := by
    rw [lexemesOf, Scan.lexemesSingle step]
    exact List.mem_singleton_self _
  have decimal : n.decimal = ⟨2 ^ 53 + 1, 0⟩ := by decide +kernel
  have exact : n.exactValue = 2 ^ 53 + 1 := by
    rw [← Numeral.decimalValue, decimal, Decimal.value]
    norm_num
  have read : Literal.ofText? n.text = some ⟨0x4340000000000000⟩ := by decide +kernel
  obtain ⟨_, refused, reads, _⟩ := (literalsRounded "9007199254740993").1 n member
  have small : n.exactValue < 2 ^ 1024 - 2 ^ 970 := by
    rw [← not_le, ← refused, read]
    exact nofun
  obtain ⟨x, found, reads⟩ := reads small
  rw [read] at found
  cases found
  exact ⟨n, member, exact, read, reads⟩

variable {n : Numeral} {x y : Binary64} {chars rest : List Char} {d : Char}

inductive PositionalText : List Char → Prop where
  | whole {digits : List Char} (all : Digits digits) (nonempty : digits ≠ []) : PositionalText digits
  | pointed {digits places : List Char} (all : Digits digits) (nonempty : digits ≠ []) (decimals : Digits places)
      (some : places ≠ []) : PositionalText (digits ++ '.' :: places)

theorem positionalText (positional : n.Positional) : PositionalText n.chars := by
  obtain ⟨whole, fraction, exponent⟩ := n
  obtain ⟨all, nonempty, fractions, absent⟩ := positional
  cases absent
  rw [Numeral.chars, Option.map_none, Option.getD_none, List.append_nil]
  cases fraction with
  | none =>
    rw [Option.map_none, Option.getD_none, List.append_nil]
    exact .whole all nonempty
  | some places =>
    obtain ⟨some, decimals⟩ := fractions places rfl
    exact .pointed all nonempty decimals some

theorem positionalAscii (positional : PositionalText chars) : ∀ c ∈ chars, c.toNat < 128 := by
  intro c member
  cases positional with
  | whole all => exact digitAscii (all c member)
  | pointed all nonempty decimals some =>
    rcases List.mem_append.1 member with digit | later
    · exact digitAscii (all c digit)
    · rcases List.mem_cons.1 later with rfl | place
      · decide
      · exact digitAscii (decimals c place)

def closers : List Char := ['+', '-', '*', '/', ')']

theorem closersDelimit (closes : d ∈ closers) (rest : List Char) : Scan.Delimits (d :: rest) := by
  have marks : (closers.all fun c => (Lexeme.mark? c).isSome) = true := rfl
  obtain ⟨mark, read⟩ := Option.isSome_iff_exists.1 (List.all_eq_true.1 marks d closes)
  exact Scan.delimitsMark read

theorem readsBefore (positional : n.Positional) (delimits : Scan.Delimits rest) :
    Numeral.read? (n.chars ++ rest) = some (n, rest) ∧
      Bytewise.numberLength (n.chars ++ rest) = .ok (some n.chars.length) := by
  have read := Numeral.readWellFormed (Numeral.positionalWellFormed positional) (Scan.delimitsStops delimits)
  have size := asciiLength (positionalAscii (positionalText positional))
  rw [Bytewise.numberAgrees, read, Option.map_some, size]
  exact ⟨rfl, rfl⟩

theorem numberText (plain : x.Plain) : (Token.number x).text = x.numeral.text := by
  rw [Numeral.text, Binary64.numeralChars plain]
  rfl

theorem numberFormed (x : Binary64) : x.numeral.WellFormed :=
  Numeral.positionalWellFormed (Decimal.numeralPositional (Shortest.decimal x))

theorem numberTextReads (plain : x.Plain) : Literal.ofText? (Token.number x).text = some x := by
  rw [numberText plain, literalWellFormed (numberFormed x), Binary64.numeralValue plain]

theorem numberTextInverse (plain : x.Plain) :
    PositionalText (Token.number x).chars ∧
    Bytewise.numberLength (Token.number x).chars = .ok (some (Token.number x).chars.length) ∧
    (∀ d ∈ closers, ∀ rest, Bytewise.numberLength ((Token.number x).chars ++ d :: rest) =
      .ok (some (Token.number x).chars.length)) ∧
    (∃ n, n.value? = some x ∧ Numeral.read? (Token.number x).chars = some (n, []) ∧
      ∀ d ∈ closers, ∀ rest, Numeral.read? ((Token.number x).chars ++ d :: rest) = some (n, d :: rest)) ∧
    Literal.ofText? (Token.number x).text = some x ∧
    ∀ y : Binary64, y.Plain → (Token.number y).text = (Token.number x).text → y = x := by
  have positional := Decimal.numeralPositional (Shortest.decimal x)
  have alone := readsBefore positional Scan.delimitsNil
  have before := fun d (closes : d ∈ closers) rest => readsBefore positional (closersDelimit closes rest)
  have chars : (Token.number x).chars = x.numeral.chars := (Binary64.numeralChars plain).symm
  rw [List.append_nil] at alone
  rw [chars]
  refine ⟨positionalText positional, alone.2, fun d closes rest => (before d closes rest).2,
    ⟨x.numeral, Binary64.numeralValue plain, alone.1, fun d closes rest => (before d closes rest).1⟩,
    numberTextReads plain, fun y plainOther same => ?_⟩
  have read := numberTextReads plainOther
  rw [same, numberTextReads plain] at read
  exact (Option.some.inj read).symm

/- A tenth, which no double is. -/
theorem tenthText : (Token.number ⟨0x3FB999999999999A⟩).text = "0.1" ∧
    Literal.ofText? "0.1" = some ⟨0x3FB999999999999A⟩ ∧
    Bytewise.numberLength ("0.1".toList ++ ['/', '7']) = .ok (some 3) := by
  have plain : Binary64.Plain ⟨0x3FB999999999999A⟩ := ⟨by decide, by decide⟩
  have text : (Token.number ⟨0x3FB999999999999A⟩).text = "0.1" := by decide +kernel
  have chars : (Token.number ⟨0x3FB999999999999A⟩).chars = "0.1".toList := by
    rw [← text, Token.text, String.toList_ofList]
  obtain ⟨_, _, before, _, reads, _⟩ := numberTextInverse plain
  rw [chars] at before
  rw [text] at reads
  exact ⟨text, reads, before '/' (by decide) ['7']⟩

end ArithmeticFormula
