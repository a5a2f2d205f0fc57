import ArithmeticFormula.Machine
import ArithmeticFormula.Proofs.Formula.Accepted

/-! The canonical text of a built formula. Its tokens fit one another as the grammar wants, its numbers are
finite and not below zero, and its names have the shape of names and are admitted. The tokens are written side by
side and still scan apart: a name or a numeral stands only before a parenthesis, an operator or the end. Main
statements: the text builds again to the same formula, and two built formulas are equal exactly if their texts
are. -/
namespace ArithmeticFormula

variable {naming : Naming} {expected : Expected} {depth : Nat} {lexemes : List Lexeme}
variable {tokens : List Token} {f : Formula} {text : String}

theorem fitsBecomes (fits : Grammar.Fits Grammar.lexemes expected depth lexemes)
    (becomes : List.Forall₂ (Lexeme.Becomes naming) lexemes tokens) :
    Grammar.Fits Grammar.tokens expected depth tokens := by
  induction fits generalizing tokens with
  | done =>
    cases becomes
    exact .done
  | number value next ih =>
    cases becomes with
    | cons head tail => cases head; exact .number _ (ih tail)
  | name raw next ih =>
    cases becomes with
    | cons head tail => cases head; exact .name _ (ih tail)
  | leftParen next ih =>
    cases becomes with
    | cons head tail => cases head; exact .leftParen (ih tail)
  | operator op next ih =>
    cases becomes with
    | cons head tail => cases head; exact .operator _ (ih tail)
  | rightParen next ih =>
    cases becomes with
    | cons head tail => cases head; exact .rightParen (ih tail)

def Token.Kept (naming : Naming) : Token → Prop
  | number x => x.Plain
  | name text => isName text = true ∧ naming.admits text = true
  | operator _ | leftParen | rightParen => True

theorem becomesKept {l : Lexeme} {t : Token} (becomes : l.Becomes naming t) : t.Kept naming := by
  cases becomes with
  | number reads => exact Decimal.nearestPlain reads
  | name _ shape admitted => exact ⟨shape, admitted⟩
  | leftParen | rightParen | operator => trivial

theorem becomesAllKept (becomes : List.Forall₂ (Lexeme.Becomes naming) lexemes tokens) :
    ∀ t ∈ tokens, t.Kept naming := by
  induction becomes with
  | nil => simp
  | cons head tail ih => exact List.forall_mem_cons.2 ⟨becomesKept head, ih⟩

structure Formula.Built (naming : Naming) (f : Formula) : Prop where
  fits : Grammar.Fits Grammar.tokens .operand 0 f.tokens
  kept : ∀ t ∈ f.tokens, t.Kept naming
  settled : f = .ofTokens f.tokens

theorem builtOfText (built : Formula.ofTextWith naming text = .ok f) : f.Built naming := by
  obtain ⟨fits, becomes, settled⟩ := ofTextOk.1 built
  exact ⟨fitsBecomes fits becomes, becomesAllKept becomes, settled⟩

theorem builtAsWritten (built : f.Built naming) : f.Built .asWritten := by
  refine ⟨built.fits, fun t member => ?_, built.settled⟩
  have kept := built.kept t member
  cases t with
  | name text => exact ⟨kept.1, rfl⟩
  | number x => exact kept
  | operator | leftParen | rightParen => trivial

variable {other : Naming} {t : Token} {g : Formula} {rest : List Char}

def Token.lexeme : Token → Lexeme
  | number x => .number x.numeral
  | name text => .name text
  | operator op => .operator op
  | leftParen => .leftParen
  | rightParen => .rightParen

theorem lexemeKind (t : Token) : t.lexeme.kind = t.kind := by
  cases t <;> rfl

theorem lexemeChars (kept : t.Kept naming) : t.lexeme.chars = t.chars := by
  cases t with
  | number x => exact Binary64.numeralChars kept
  | name text => rfl
  | operator op => rfl
  | leftParen => rfl
  | rightParen => rfl

theorem charsNotBlank (kept : t.Kept naming) : ∀ c ∈ t.chars, isBlank c = false := by
  intro c member
  cases t with
  | number x =>
    rw [Token.chars, ← Binary64.numeralChars kept] at member
    rcases Numeral.positionalChars (Decimal.numeralPositional _) c member with digit | rfl
    · exact Scan.namePartNotBlank (Scan.digitIsNamePart digit)
    · rfl
  | name text => exact Scan.namePartNotBlank (isNameAll kept.1 c member)
  | operator op =>
    rw [List.mem_singleton.1 member]
    cases op <;> decide
  | leftParen =>
    rw [List.mem_singleton.1 member]
    decide
  | rightParen =>
    rw [List.mem_singleton.1 member]
    decide

theorem scanToken (kept : t.Kept naming) (apart : t.kind.endsOperand = true → Scan.Delimits rest) :
    Scan.lexemes (t.chars ++ rest) = t.lexeme :: Scan.lexemes rest := by
  apply Scan.lexemesOfSome
  cases t with
  | number x =>
    rw [Token.chars, ← Binary64.numeralChars kept]
    exact Scan.nextNumeral (Numeral.positionalWellFormed (Decimal.numeralPositional _)) (apart rfl)
  | name text => exact Scan.nextName kept.1 (apart rfl)
  | operator op => exact Scan.nextMark (Scan.markSymbol op)
  | leftParen => exact Scan.nextMark rfl
  | rightParen => exact Scan.nextMark rfl

theorem fitsDelimits (fits : Grammar.Fits Grammar.tokens .operatorOrClose depth tokens) :
    Scan.Delimits (tokens.flatMap Token.chars) := by
  cases fits with
  | done => exact Scan.delimitsNil
  | operator op next => exact Scan.delimitsMark (Scan.markSymbol op)
  | rightParen next =>
    have read : Lexeme.mark? ')' = some .rightParen := rfl
    exact Scan.delimitsMark read

theorem scanCons (kept : ∀ u ∈ t :: tokens, u.Kept naming)
    (apart : t.kind.endsOperand = true → Scan.Delimits (tokens.flatMap Token.chars))
    (later : (∀ u ∈ tokens, u.Kept naming) →
      Scan.lexemes (tokens.flatMap Token.chars) = tokens.map Token.lexeme) :
    Scan.lexemes ((t :: tokens).flatMap Token.chars) = (t :: tokens).map Token.lexeme := by
  obtain ⟨head, tail⟩ := List.forall_mem_cons.1 kept
  rw [List.flatMap_cons, List.map_cons, scanToken head apart, later tail]

theorem scanFits (fits : Grammar.Fits Grammar.tokens expected depth tokens)
    (kept : ∀ t ∈ tokens, t.Kept naming) :
    Scan.lexemes (tokens.flatMap Token.chars) = tokens.map Token.lexeme := by
  induction fits with
  | done => exact Scan.lexemesOfNone rfl
  | number _ next ih | name _ next ih | rightParen next ih =>
    exact scanCons kept (fun _ => fitsDelimits next) ih
  | leftParen next ih | operator _ next ih => exact scanCons kept (fun ends => nomatch ends) ih

theorem canonicalChars (built : f.Built naming) : f.canonical.toList = f.tokens.flatMap Token.chars := by
  have stored : f.canonical = Token.written f.tokens := congrArg Formula.canonical built.settled
  rw [stored, Token.written, String.toList_ofList]

theorem lexemesCanonical (built : f.Built naming) :
    lexemesOf f.canonical = f.tokens.map Token.lexeme := by
  rw [lexemesOf, canonicalChars built]
  exact scanFits built.fits built.kept

theorem fitsLexemes (fits : Grammar.Fits Grammar.tokens expected depth tokens) :
    Grammar.Fits Grammar.lexemes expected depth (tokens.map Token.lexeme) := by
  induction fits with
  | done => exact .done
  | number value next ih => exact .number _ ih
  | name raw next ih => exact .name _ ih
  | leftParen next ih => exact .leftParen ih
  | operator op next ih => exact .operator _ ih
  | rightParen next ih => exact .rightParen ih

theorem lexemeBecomes (kept : t.Kept naming)
    (unchanged : ∀ name, t = .name name → naming.rename name = name) : t.lexeme.Becomes naming t := by
  cases t with
  | number x => exact .number (Binary64.numeralValue kept)
  | name name =>
    have same := unchanged name rfl
    have becomes : (Lexeme.name name).Becomes naming (.name (naming.rename name)) :=
      .name kept.1 (same.symm ▸ kept.1) (same.symm ▸ kept.2)
    rwa [same] at becomes
  | operator op => exact .operator op
  | leftParen => exact .leftParen
  | rightParen => exact .rightParen

theorem ofCanonical (built : f.Built naming)
    (unchanged : ∀ name ∈ f.names, naming.rename name = name) :
    Formula.ofTextWith naming f.canonical = .ok f := by
  rw [ofTextOk, lexemesCanonical built]
  refine ⟨fitsLexemes built.fits, List.forall₂_map_left_iff.2 (List.forall₂_same.2 ?_), built.settled⟩
  intro t member
  refine lexemeBecomes (built.kept t member) ?_
  intro name same
  subst same
  exact unchanged name ((memNames built.settled).2 member)

theorem ofCanonicalAsWritten (built : f.Built naming) : Formula.ofText f.canonical = .ok f :=
  ofCanonical (builtAsWritten built) fun _ _ => rfl

theorem canonicalInjective (builtLeft : f.Built naming) (builtRight : g.Built other)
    (same : f.canonical = g.canonical) : f = g := by
  have read := ofCanonicalAsWritten builtLeft
  rw [same, ofCanonicalAsWritten builtRight] at read
  exact (Except.ok.inj read).symm

theorem plainSameValue {x y : Binary64} (left : x.Plain) (right : y.Plain)
    (same : x.sameValue y = true) : x = y := by
  simp only [Binary64.sameValue, Bool.and_eq_true, Bool.or_eq_true, beq_iff_eq] at same
  rcases same.2 with equal | zeros
  · exact equal
  · rw [Shortest.zeroPlain left zeros.1, Shortest.zeroPlain right zeros.2]

theorem keptSameValue {u : Token} (left : t.Kept naming) (right : u.Kept other) :
    t.sameValue u = true ↔ t = u := by
  cases t with
  | number x =>
    cases u with
    | number y =>
      rw [Token.sameValue, Token.number.injEq]
      exact ⟨plainSameValue left right,
        fun same => same ▸ Binary64.sameValueSelf (Binary64.plainNotNaN left)⟩
    | name | operator | leftParen | rightParen => simp [Token.sameValue]
  | name | operator | leftParen | rightParen => cases u <;> simp [Token.sameValue]

theorem keptEqual {others : List Token} (left : ∀ t ∈ tokens, t.Kept naming)
    (right : ∀ t ∈ others, t.Kept other) :
    tokens.isEqv others Token.sameValue = true ↔ tokens = others := by
  induction tokens generalizing others with
  | nil => cases others <;> simp
  | cons t tokens ih =>
    cases others with
    | nil => simp
    | cons u others =>
      obtain ⟨leftHead, leftTail⟩ := List.forall_mem_cons.1 left
      obtain ⟨rightHead, rightTail⟩ := List.forall_mem_cons.1 right
      rw [List.isEqv_cons_cons, Bool.and_eq_true, keptSameValue leftHead rightHead,
        ih leftTail rightTail, List.cons.injEq]

theorem equalIff (builtLeft : f.Built naming) (builtRight : g.Built other) :
    (f == g) = true ↔ f = g := by
  have tokens : (f == g) = true ↔ f.tokens = g.tokens := keptEqual builtLeft.kept builtRight.kept
  rw [tokens]
  refine ⟨fun same => ?_, congrArg Formula.tokens⟩
  rw [builtLeft.settled, builtRight.settled, same]

/- The same formula in every way that can be told. -/
structure Formula.Alike (f g : Formula) : Prop where
  equal : (f == g) = true
  tokens : f.tokens = g.tokens
  canonical : f.canonical = g.canonical
  hashed : hash f = hash g
  names : f.names = g.names

theorem alikeSelf (built : f.Built naming) : f.Alike f :=
  ⟨(equalIff built built).2 rfl, rfl, rfl, rfl, rfl⟩

theorem canonicalBuildsAgain (built : Formula.ofTextWith naming text = .ok f) :
    List.Forall₂ (fun l t => l.text = t.text ∧ l.kind = t.kind) (lexemesOf f.canonical) f.tokens ∧
      (∀ c ∈ f.canonical.toList, isBlank c = false) ∧
      (∃ g, Formula.ofText f.canonical = .ok g ∧ g.Alike f) ∧
      ((∀ name ∈ f.names, naming.rename name = name) →
        ∃ g, Formula.ofTextWith naming f.canonical = .ok g ∧ g.Alike f) := by
  have invariant := builtOfText built
  refine ⟨?_, ?_, ⟨f, ofCanonicalAsWritten invariant, alikeSelf invariant⟩,
    fun unchanged => ⟨f, ofCanonical invariant unchanged, alikeSelf invariant⟩⟩
  · rw [lexemesCanonical invariant]
    refine List.forall₂_map_left_iff.2 (List.forall₂_same.2 fun t member => ⟨?_, lexemeKind t⟩)
    rw [Lexeme.text, lexemeChars (invariant.kept t member), Token.text]
  · rw [canonicalChars invariant]
    intro c member
    obtain ⟨t, inside, part⟩ := List.mem_flatMap.1 member
    exact charsNotBlank (invariant.kept t inside) c part

theorem quotientBuildsAgain : ∃ f,
    Formula.ofTextWith (.ofRules .upper .all) "x / (1.50 - y)" = .ok f ∧
      (∃ g, Formula.ofText f.canonical = .ok g ∧ g.Alike f) ∧
      ∃ g, Formula.ofTextWith (.ofRules .upper .all) f.canonical = .ok g ∧ g.Alike f := by
  obtain ⟨_, _, plain, again⟩ := canonicalBuildsAgain quotientBuilds
  refine ⟨_, quotientBuilds, plain, again fun name member => ?_⟩
  have found := (memNames rfl).1 member
  simp only [Formula.ofTokens, Formula.ofRead, List.mem_cons, Token.name.injEq, List.not_mem_nil,
    reduceCtorEq, false_or, or_false] at found
  rcases found with rfl | rfl <;> decide

theorem equalIffCanonical (builtLeft : Formula.ofTextWith naming text = .ok f) {otherText : String}
    (builtRight : Formula.ofTextWith other otherText = .ok g) :
    ((f == g) = true ↔ f.canonical = g.canonical) ∧
      ((f == g) = true → f.Alike g ∧ ∀ arithmetic lookup,
        f.evaluateWith arithmetic lookup = g.evaluateWith arithmetic lookup) ∧
      (f == f) = true ∧
      ((f == g) = true → (g == f) = true) ∧
      ∀ {third : Naming} {thirdText : String} {h : Formula},
        Formula.ofTextWith third thirdText = .ok h →
          (f == g) = true → (g == h) = true → (f == h) = true := by
  have left := builtOfText builtLeft
  have right := builtOfText builtRight
  have equal := equalIff left right
  refine ⟨⟨fun same => ?_, fun same => ?_⟩, fun same => ?_, (equalIff left left).2 rfl,
    fun same => (equalIff right left).2 (equal.1 same).symm, fun builtThird same next => ?_⟩
  · rw [equal.1 same]
  · exact equal.2 (canonicalInjective left right same)
  · obtain rfl := equal.1 same
    exact ⟨alikeSelf left, fun _ _ => rfl⟩
  · have last := builtOfText builtThird
    exact (equalIff left last).2 ((equal.1 same).trans ((equalIff right last).1 next))

theorem quotientEqual : ∃ f g : Formula,
    Formula.ofTextWith (.ofRules .upper .all) "x / (1.50 - y)" = .ok f ∧
      Formula.ofText f.canonical = .ok g ∧ (f == g) = true := by
  have again := ofCanonicalAsWritten (builtOfText quotientBuilds)
  exact ⟨_, _, quotientBuilds, again, (equalIffCanonical quotientBuilds again).1.2 rfl⟩

end ArithmeticFormula
