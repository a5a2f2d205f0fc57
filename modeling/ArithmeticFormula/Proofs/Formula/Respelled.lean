import ArithmeticFormula.Proofs.Formula.Canonical
import ArithmeticFormula.Proofs.Formula.Stops
import ArithmeticFormula.Proofs.Lexeme.Divided
import ArithmeticFormula.Proofs.Number.Decimal

/-! A text written anew, with other blanks and with other literals of the same numbers. It has the same
lexemes but for the spelling of numbers, and the two builds go side by side: what one refuses the other
refuses at the same place. Main statement: both build the same formula, or both fail with one fault, the
spelling of a number in it apart. -/
namespace ArithmeticFormula

inductive Lexeme.Alike : Lexeme → Lexeme → Prop where
  | same (l : Lexeme) : Alike l l
  | number {n m : Numeral} (equal : n.exactValue = m.exactValue) : Alike (.number n) (.number m)

inductive Lexeme.Respells : Lexeme → List Char → Prop where
  | same (l : Lexeme) : Respells l l.chars
  | number {n m : Numeral} (formed : m.WellFormed) (equal : n.exactValue = m.exactValue) :
      Respells (.number n) m.chars

/- A text that writes at least one lexeme, with blanks after each and some between any two. -/
inductive Respelled : List Lexeme → List Char → Prop where
  | last {l : Lexeme} {word blanks : List Char} (respells : l.Respells word)
      (blank : ∀ c ∈ blanks, isBlank c = true) : Respelled [l] (word ++ blanks)
  | next {l : Lexeme} {lexemes : List Lexeme} {word blanks rest : List Char} (respells : l.Respells word)
      (blank : ∀ c ∈ blanks, isBlank c = true) (apart : blanks ≠ []) (later : Respelled lexemes rest) :
      Respelled (l :: lexemes) (word ++ (blanks ++ rest))

inductive FormatFault.Alike : FormatFault → FormatFault → Prop where
  | same (fault : FormatFault) : Alike fault fault
  | unexpectedToken {l m previous other : Lexeme} (alike : l.Alike m) (before : previous.Alike other)
      (position : Nat) (expected : Expected) :
      Alike (.unexpectedToken l.text previous.text position expected)
        (.unexpectedToken m.text other.text position expected)
  | invalidNumber {n m : Numeral} (equal : n.exactValue = m.exactValue) :
      Alike (.invalidNumber n.text) (.invalidNumber m.text)

inductive Agrees {α : Type} : Except FormatFault α → Except FormatFault α → Prop where
  | ok (value : α) : Agrees (.ok value) (.ok value)
  | error {fault other : FormatFault} (alike : fault.Alike other) : Agrees (.error fault) (.error other)

variable {naming : Naming} {l m : Lexeme} {lexemes others : List Lexeme} {place other : Place}
variable {text word written : List Char} {α β : Type}

theorem respellsLexemes (member : l ∈ Scan.lexemes text) (respells : l.Respells word) :
    ∃ m, l.Alike m ∧ Scan.lexemes word = [m] := by
  cases respells with
  | same => exact ⟨l, .same l, Scan.lexemesSingle (Scan.lexemesAlone member)⟩
  | @number n m formed equal =>
    have alone := Scan.nextNumeral formed Scan.delimitsNil
    rw [List.append_nil] at alone
    exact ⟨.number m, .number equal, Scan.lexemesSingle alone⟩

theorem lexemesApart {blanks : List Char} (blank : ∀ c ∈ blanks, isBlank c = true) (apart : blanks ≠ [])
    (word rest : List Char) :
    Scan.lexemes (word ++ (blanks ++ rest)) = Scan.lexemes word ++ Scan.lexemes rest := by
  cases blanks with
  | nil => exact absurd rfl apart
  | cons c blanks =>
    obtain ⟨head, tail⟩ := List.forall_mem_cons.1 blank
    rw [List.cons_append, Scan.lexemesBlank head, Scan.lexemesBlanks tail]

theorem lexemesTrailing {blanks : List Char} (blank : ∀ c ∈ blanks, isBlank c = true) (word : List Char) :
    Scan.lexemes (word ++ blanks) = Scan.lexemes word := by
  by_cases empty : blanks = []
  · rw [empty, List.append_nil]
  · have whole := lexemesApart blank empty word []
    rwa [List.append_nil, Scan.lexemesNil, List.append_nil] at whole

theorem respelledLexemes (respelled : Respelled lexemes written)
    (scanned : ∀ l ∈ lexemes, l ∈ Scan.lexemes text) :
    List.Forall₂ Lexeme.Alike lexemes (Scan.lexemes written) := by
  induction respelled with
  | @last l word blanks respells blank =>
    obtain ⟨m, alike, alone⟩ := respellsLexemes (List.forall_mem_singleton.1 scanned) respells
    rw [lexemesTrailing blank, alone]
    exact .cons alike .nil
  | next respells blank apart later ih =>
    obtain ⟨head, tail⟩ := List.forall_mem_cons.1 scanned
    obtain ⟨m, alike, alone⟩ := respellsLexemes head respells
    rw [lexemesApart blank apart, alone]
    exact .cons alike (ih tail)

theorem agreesBind {x y : Except FormatFault α} {next goes : α → Except FormatFault β} (first : Agrees x y)
    (later : ∀ value, Agrees (next value) (goes value)) : Agrees (x >>= next) (y >>= goes) := by
  cases first with
  | ok value => exact later value
  | error alike => exact .error alike

theorem agreesMap {x y : Except FormatFault α} (agrees : Agrees x y) (f : α → β) :
    Agrees (x.map f) (y.map f) := by
  cases agrees with
  | ok value => exact .ok (f value)
  | error alike => exact .error alike

theorem agreesSelf (outcome : Except FormatFault α) : Agrees outcome outcome := by
  cases outcome with
  | ok value => exact .ok value
  | error fault => exact .error (.same fault)

theorem alikeKind (alike : l.Alike m) : l.kind = m.kind := by
  cases alike <;> rfl

theorem alikeOtherwise (alike : l.Alike m) (other : l.kind ≠ .number) : m = l := by
  cases alike with
  | same => rfl
  | number equal => exact absurd rfl other

theorem toTokenAgrees (alike : l.Alike m) : Agrees (l.toToken naming) (m.toToken naming) := by
  cases alike with
  | same => exact agreesSelf _
  | @number n m equal =>
    rw [toTokenNumber, toTokenNumber, Numeral.valueOfEqualExact equal]
    cases m.value? with
    | none => exact .error (.invalidNumber equal)
    | some x => exact .ok _

structure Place.Alike (place other : Place) : Prop where
  position : place.position = other.position
  depth : place.depth = other.depth
  previous : Option.Rel Lexeme.Alike place.previous other.previous

theorem depthAgrees (here : place.Alike other) (alike : l.Alike m) :
    Agrees (place.depthAfter l) (other.depthAfter m) := by
  obtain ⟨position, depth, previous⟩ := place
  obtain ⟨_, _, otherPrevious⟩ := other
  obtain ⟨rfl, rfl, _⟩ := here
  cases alike with
  | number equal => exact .ok depth
  | same =>
    cases l with
    | rightParen => cases depth <;> exact agreesSelf _
    | leftParen | operator | name | number | stray => exact .ok _

theorem neighbourAgrees (here : place.Alike other) (alike : l.Alike m) :
    Agrees (place.checkNeighbour l) (other.checkNeighbour m) := by
  obtain ⟨position, depth, previous⟩ := place
  obtain ⟨_, _, otherPrevious⟩ := other
  obtain ⟨rfl, rfl, before⟩ := here
  cases before with
  | none => exact .ok ()
  | some alikeBefore =>
    simp only [Place.checkNeighbour, alikeKind alike, alikeKind alikeBefore]
    split
    · exact .ok ()
    · exact .error (.unexpectedToken alike alikeBefore _ _)

theorem enterAgrees (alike : l.Alike m) (known : TextSet) :
    Agrees (l.enter naming known) (m.enter naming known) := by
  rw [enterNotes, enterNotes]
  exact agreesMap (toTokenAgrees alike) _

theorem tokensFromAgrees (alike : List.Forall₂ Lexeme.Alike lexemes others) (here : place.Alike other)
    (known : TextSet) :
    Agrees (Formula.tokensFrom naming place known lexemes) (Formula.tokensFrom naming other known others) := by
  induction alike generalizing place other known with
  | nil =>
    simp only [Formula.tokensFrom, here.depth]
    exact agreesSelf _
  | cons head tail ih =>
    simp only [Formula.tokensFrom]
    refine agreesBind (neighbourAgrees here head) fun _ => agreesBind (depthAgrees here head) fun depth =>
      agreesBind (enterAgrees head known) fun entered => agreesBind (ih ?_ entered.2) fun read => .ok _
    exact ⟨congrArg (· + 1) here.position, rfl, .some head⟩

theorem lastAlike (alike : List.Forall₂ Lexeme.Alike lexemes others) :
    Option.Rel Lexeme.Alike lexemes.getLast? others.getLast? := by
  induction alike with
  | nil => exact .none
  | cons head tail ih =>
    cases tail with
    | nil => exact .some head
    | cons next tail =>
      rw [List.getLast?_cons_cons, List.getLast?_cons_cons]
      exact ih

theorem endAgrees {held : Kind → Bool} {fault : String → FormatFault} {x y : Except FormatFault α}
    (alike : l.Alike m) (numbers : held .number = true) (onward : Agrees x y) :
    Agrees (if !held l.kind then .error (fault l.text) else x)
      (if !held m.kind then .error (fault m.text) else y) := by
  rw [← alikeKind alike]
  cases holds : held l.kind with
  | true => exact onward
  | false =>
    have notNumber : l.kind ≠ .number := by
      intro same
      rw [same, numbers] at holds
      cases holds
    rw [alikeOtherwise alike notNumber]
    exact .error (.same _)

theorem ofLexemesAgrees (alike : List.Forall₂ Lexeme.Alike lexemes others) :
    Agrees (Formula.ofLexemes naming lexemes) (Formula.ofLexemes naming others) := by
  have read : Agrees (Formula.tokensFrom naming .start .empty lexemes)
      (Formula.tokensFrom naming .start .empty others) := tokensFromAgrees alike ⟨rfl, rfl, .none⟩ _
  have last := lastAlike alike
  cases alike with
  | nil => exact agreesSelf _
  | cons head tail =>
    simp only [Formula.ofLexemes, List.head?_cons]
    generalize List.getLast? _ = final at last ⊢
    generalize List.getLast? _ = otherFinal at last ⊢
    cases last with
    | none => exact agreesSelf _
    | some alikeLast => exact endAgrees head rfl (endAgrees alikeLast rfl (agreesMap read _))

theorem respelledNonempty (respelled : Respelled lexemes written) : lexemes ≠ [] := by
  cases respelled <;> exact List.cons_ne_nil _ _

theorem lexemesWritten {text : String} (nonempty : lexemesOf text ≠ []) : text ≠ "" := by
  obtain ⟨l, rest, same⟩ := List.exists_cons_of_ne_nil nonempty
  exact headWritten (l := l) (by rw [same]; rfl)

theorem ofTextAgrees {text other : String} (nonempty : lexemesOf text ≠ [])
    (alike : List.Forall₂ Lexeme.Alike (lexemesOf text) (lexemesOf other)) :
    Agrees (Formula.ofTextWith naming text) (Formula.ofTextWith naming other) := by
  have otherNonempty : lexemesOf other ≠ [] := by
    rw [← List.length_pos_iff, ← alike.length_eq]
    exact List.length_pos_iff.2 nonempty
  rw [ofTextWritten (lexemesWritten nonempty), ofTextWritten (lexemesWritten otherNonempty)]
  exact ofLexemesAgrees alike

theorem agreesCases {x y : Except FormatFault α} (agrees : Agrees x y) :
    (∃ value, x = .ok value ∧ y = .ok value) ∨
      ∃ fault other, x = .error fault ∧ y = .error other ∧ fault.Alike other := by
  cases agrees with
  | ok value => exact .inl ⟨value, rfl, rfl⟩
  | error alike => exact .inr ⟨_, _, rfl, rfl, alike⟩

theorem respelledBuilds {text other : String} {lead : List Char} (blank : ∀ c ∈ lead, isBlank c = true)
    (parts : other.toList = lead ++ written) (respelled : Respelled (lexemesOf text) written)
    (naming : Naming) :
    (∃ f g, Formula.ofTextWith naming text = .ok f ∧ Formula.ofTextWith naming other = .ok g ∧ f.Alike g ∧
      ∀ arithmetic lookup, f.evaluateWith arithmetic lookup = g.evaluateWith arithmetic lookup) ∨
    ∃ fault otherFault, Formula.ofTextWith naming text = .error fault ∧
      Formula.ofTextWith naming other = .error otherFault ∧ fault.Alike otherFault := by
  have alike : List.Forall₂ Lexeme.Alike (lexemesOf text) (lexemesOf other) := by
    have same : lexemesOf other = Scan.lexemes written := by
      rw [lexemesOf, parts, Scan.lexemesBlanks blank]
    rw [same]
    exact respelledLexemes respelled fun _ member => member
  obtain ⟨f, built, builtOther⟩ | failed := agreesCases (ofTextAgrees (respelledNonempty respelled) alike)
  · exact .inl ⟨f, f, built, builtOther, alikeSelf (builtOfText built), fun _ _ => rfl⟩
  · exact .inr failed

theorem productRespelled : ∃ f g, Formula.ofText "1.50*x" = .ok f ∧ Formula.ofText " 15e-1 *\tx" = .ok g ∧
    f.Alike g := by
  let written : List Char := ['1', '5', 'e', '-', '1'] ++ ([' '] ++ (['*'] ++ (['\t'] ++ (['x'] ++ []))))
  have parts : " 15e-1 *\tx".toList = [' '] ++ written := by decide
  have lexemes : lexemesOf "1.50*x" =
      [.number ⟨['1'], some ['5', '0'], none⟩, .operator .multiply, .name "x"] := by
    have chars : "1.50*x".toList = ['1', '.', '5', '0', '*', 'x'] := by decide
    rw [lexemesOf, chars]
    iterate 3 rw [Scan.lexemesOfSome rfl]
    rw [Scan.lexemesOfNone rfl]
    rfl
  have read : Numeral.read? ['1', '5', 'e', '-', '1'] =
      some (⟨['1', '5'], none, some ⟨'e', some .minus, ['1']⟩⟩, []) := rfl
  have equal : Numeral.exactValue ⟨['1'], some ['5', '0'], none⟩ =
      Numeral.exactValue ⟨['1', '5'], none, some ⟨'e', some .minus, ['1']⟩⟩ := by
    have decimals : Decimal.value ⟨150, -2⟩ = Decimal.value ⟨15, -1⟩ := by norm_num [Decimal.value]
    rw [← Numeral.decimalValue, ← Numeral.decimalValue]
    exact decimals
  have number : (Lexeme.number ⟨['1'], some ['5', '0'], none⟩).Respells ['1', '5', 'e', '-', '1'] :=
    .number (Numeral.wellFormedRead read) equal
  have space : ∀ c ∈ [' '], isBlank c = true := List.forall_mem_singleton.2 rfl
  have tab : ∀ c ∈ ['\t'], isBlank c = true := List.forall_mem_singleton.2 rfl
  have respelled : Respelled (lexemesOf "1.50*x") written := by
    rw [lexemes]
    exact .next number space (List.cons_ne_nil _ _) (.next (.same (.operator .multiply)) tab
      (List.cons_ne_nil _ _) (.last (.same (.name "x")) (List.forall_mem_nil _)))
  have value : (⟨['1'], some ['5', '0'], none⟩ : Numeral).value? = some ⟨0x3FF8000000000000⟩ := by
    decide +kernel
  have built : Formula.ofText "1.50*x" =
      .ok (.ofTokens [.number ⟨0x3FF8000000000000⟩, .operator .multiply, .name "x"]) := by
    rw [Formula.ofText, ofTextOk, lexemes]
    exact ⟨.number _ (.operator _ (.name _ .done)), .cons (.number value) (.cons (.operator _)
      (.cons (.name (by decide) (by decide) rfl) .nil)), rfl⟩
  obtain ⟨f, g, first, second, alike, _⟩ | ⟨fault, _, failed, _⟩ :=
    respelledBuilds space parts respelled .asWritten
  · exact ⟨f, g, first, second, alike⟩
  · cases built.symm.trans failed

end ArithmeticFormula
