import ArithmeticFormula.Machine
import ArithmeticFormula.Proofs.Formula.Value
import ArithmeticFormula.Proofs.Lexeme.Divided
import ArithmeticFormula.Proofs.Machine.Carries

/-! Texts put together. An operator between two texts that build, and parentheses around one, leave the
lexemes of each as they are: no accepted text ends in a numeral and a marker that a sign could go on with.
Main statement: what is put together builds, its tokens are those of its parts, and a group is one operand,
whatever is in it. -/
namespace ArithmeticFormula

def joined (left : String) (op : Operator) (right : String) : String :=
  left ++ op.symbol.toString ++ right

def grouped (inner : String) : String := "(" ++ inner ++ ")"

variable {naming : Naming} {left right inner : String} {f g h : Formula} {op : Operator}
variable {expected : Expected} {depth : Nat}

theorem joinedChars : (joined left op right).toList = left.toList ++ op.symbol :: right.toList := by
  simp [joined]

theorem groupedChars : (grouped inner).toList = '(' :: (inner.toList ++ [')']) := by
  simp [grouped]

theorem fitsNotSideBySide {front : List Lexeme} {n : Numeral} {raw : String} :
    ¬ Grammar.Fits Grammar.lexemes expected depth (front ++ [.number n, .name raw]) := by
  intro fits
  induction front generalizing expected depth with
  | nil =>
    obtain ⟨after, next⟩ := fitsTail fits
    cases next
  | cons l front ih =>
    obtain ⟨after, next⟩ := fitsTail fits
    exact ih next

theorem fitsNotFuses {d : Char} {text rest : List Char}
    (fits : Grammar.Fits Grammar.lexemes expected depth (Scan.lexemes text)) : ¬ Scan.Fuses text d rest := by
  intro fuses
  obtain ⟨front, n, marker, ends, _⟩ := fuses.ends
  rw [ends] at fits
  exact fitsNotSideBySide fits

theorem lexemesJoined (fits : Grammar.Fits Grammar.lexemes expected depth (lexemesOf left)) :
    lexemesOf (joined left op right) = lexemesOf left ++ .operator op :: lexemesOf right := by
  rw [lexemesOf, joinedChars]
  exact Scan.lexemesMark (Scan.markSymbol op) (fitsNotFuses fits)

theorem lexemesGrouped : lexemesOf (grouped inner) = .leftParen :: (lexemesOf inner ++ [.rightParen]) := by
  have read : Lexeme.mark? '(' = some .leftParen := rfl
  rw [lexemesOf, groupedChars, Scan.lexemesOfSome (Scan.nextMark read), Scan.lexemesClose, Scan.lexemesNil]
  rfl

theorem joinedBuilds (builtLeft : Formula.ofTextWith naming left = .ok f)
    (builtRight : Formula.ofTextWith naming right = .ok g) (op : Operator) :
    ∃ h, Formula.ofTextWith naming (joined left op right) = .ok h ∧
      h.tokens = f.tokens ++ .operator op :: g.tokens := by
  obtain ⟨fitsLeft, becomesLeft, _⟩ := ofTextOk.1 builtLeft
  obtain ⟨fitsRight, becomesRight, _⟩ := ofTextOk.1 builtRight
  refine ⟨.ofTokens (f.tokens ++ .operator op :: g.tokens), ?_, rfl⟩
  rw [ofTextOk, lexemesJoined fitsLeft]
  exact ⟨Grammar.fitsBefore fitsLeft (.operator op fitsRight),
    List.rel_append becomesLeft (.cons (.operator op) becomesRight), rfl⟩

theorem groupedBuilds (built : Formula.ofTextWith naming inner = .ok f) :
    ∃ h, Formula.ofTextWith naming (grouped inner) = .ok h ∧
      h.tokens = .leftParen :: (f.tokens ++ [.rightParen]) := by
  obtain ⟨fits, becomes, _⟩ := ofTextOk.1 built
  refine ⟨.ofTokens (.leftParen :: (f.tokens ++ [.rightParen])), ?_, rfl⟩
  rw [ofTextOk, lexemesGrouped]
  exact ⟨.leftParen (Grammar.fitsBefore fits (.rightParen .done)),
    .cons .leftParen (List.rel_append becomes (.cons .rightParen .nil)), rfl⟩

theorem canonicalJoined (builtLeft : f.Built naming) (builtRight : g.Built naming)
    (whole : h.Built naming) (tokens : h.tokens = f.tokens ++ .operator op :: g.tokens) :
    h.canonical = joined f.canonical op g.canonical := by
  apply String.toList_inj.1
  rw [joinedChars, canonicalChars builtLeft, canonicalChars builtRight, canonicalChars whole, tokens]
  simp only [List.flatMap_append, List.flatMap_cons, Token.chars, List.singleton_append]

theorem groupsExpression (e₁ e₂ : Grammar.Expression Binary64) (op : Operator) :
    ∃ e : Grammar.Expression Binary64,
      e.write Grammar.tokens =
        (Grammar.Factor.group e₁).write Grammar.tokens ++
          .operator op :: (Grammar.Factor.group e₂).write Grammar.tokens ∧
      ∀ arithmetic lookup, e.evaluate arithmetic lookup = (do
        let x ← e₁.evaluate arithmetic lookup
        let y ← e₂.evaluate arithmetic lookup
        arithmetic.apply op x y) := by
  cases kind : op.isMultiplicative with
  | true => exact ⟨.term (.chain (.factor (.group e₁)) op kind (.group e₂)), rfl, fun _ _ => rfl⟩
  | false => exact ⟨.chain (.term (.factor (.group e₁))) op kind (.factor (.group e₂)), rfl, fun _ _ => rfl⟩

theorem evaluateGrouped (built : f.Built naming) (tokens : h.tokens = .leftParen :: (f.tokens ++ [.rightParen]))
    (arithmetic : Arithmetic) (lookup : Lookup) :
    h.evaluateWith arithmetic lookup = f.evaluateWith arithmetic lookup := by
  obtain ⟨e, written⟩ := Grammar.derivesIffFits.2 built.fits
  have around : (Grammar.Expression.term (.factor (.group e))).write Grammar.tokens = h.tokens := by
    rw [tokens, ← written]
    rfl
  rw [evaluateWritten around, evaluateWritten written]
  rfl

theorem evaluateGroups (builtLeft : f.Built naming) (builtRight : g.Built naming)
    (tokens : h.tokens = (.leftParen :: (f.tokens ++ [.rightParen])) ++
      .operator op :: .leftParen :: (g.tokens ++ [.rightParen])) (arithmetic : Arithmetic) (lookup : Lookup) :
    h.evaluateWith arithmetic lookup = (do
      let x ← f.evaluateWith arithmetic lookup
      let y ← g.evaluateWith arithmetic lookup
      arithmetic.apply op x y) := by
  obtain ⟨e₁, written₁⟩ := Grammar.derivesIffFits.2 builtLeft.fits
  obtain ⟨e₂, written₂⟩ := Grammar.derivesIffFits.2 builtRight.fits
  obtain ⟨e, written, value⟩ := groupsExpression e₁ e₂ op
  have whole : e.write Grammar.tokens = h.tokens := by
    rw [written, tokens, ← written₁, ← written₂]
    rfl
  rw [evaluateWritten whole, evaluateWritten written₁, evaluateWritten written₂, value]

theorem composedBuilds (builtLeft : Formula.ofTextWith naming left = .ok f)
    (builtRight : Formula.ofTextWith naming right = .ok g) (op : Operator) :
    (∃ h, Formula.ofTextWith naming (joined left op right) = .ok h ∧
      h.tokens = f.tokens ++ .operator op :: g.tokens ∧
      h.canonical = joined f.canonical op g.canonical ∧
      ∀ name, name ∈ h.names ↔ name ∈ f.names ∨ name ∈ g.names) ∧
    (∃ h, Formula.ofTextWith naming (grouped left) = .ok h ∧
      ∀ arithmetic lookup, h.evaluateWith arithmetic lookup = f.evaluateWith arithmetic lookup) ∧
    ∃ h, Formula.ofTextWith naming (joined (grouped left) op (grouped right)) = .ok h ∧
      ∀ arithmetic lookup,
        h.evaluateWith arithmetic lookup = (do
          let x ← f.evaluateWith arithmetic lookup
          let y ← g.evaluateWith arithmetic lookup
          arithmetic.apply op x y) ∧
        ∀ x y, f.evaluateWith arithmetic lookup = .ok x → g.evaluateWith arithmetic lookup = .ok y →
          op = .divide → arithmetic.isZero y = true →
            h.evaluateWith arithmetic lookup = .error .divideByZero := by
  have fromLeft := builtOfText builtLeft
  have fromRight := builtOfText builtRight
  obtain ⟨h, whole, tokens⟩ := joinedBuilds builtLeft builtRight op
  obtain ⟨hLeft, groupLeft, tokensLeft⟩ := groupedBuilds builtLeft
  obtain ⟨hRight, groupRight, tokensRight⟩ := groupedBuilds builtRight
  obtain ⟨hGroups, groups, tokensGroups⟩ := joinedBuilds groupLeft groupRight op
  rw [tokensLeft, tokensRight] at tokensGroups
  have fromWhole := builtOfText whole
  refine ⟨⟨h, whole, tokens, canonicalJoined fromLeft fromRight fromWhole tokens, fun name => ?_⟩,
    ⟨hLeft, groupLeft, evaluateGrouped fromLeft tokensLeft⟩, ⟨hGroups, groups, fun arithmetic lookup => ?_⟩⟩
  · rw [memNames fromLeft.settled, memNames fromRight.settled, memNames fromWhole.settled, tokens]
    simp only [List.mem_append, List.mem_cons, reduceCtorEq, false_or]
  · have value := evaluateGroups fromLeft fromRight tokensGroups arithmetic lookup
    refine ⟨value, fun x y left right divides zero => ?_⟩
    subst divides
    rw [value, left, right, Outcome.okBind, Outcome.okBind, Arithmetic.apply, if_pos zero]

/- A numeral, a marker, a sign and a digit in a row, and yet no numeral goes on through the sign. -/
theorem nameMinusNumber : ∃ h, Formula.ofText "x1e-5" = .ok h ∧
    h.tokens = [.name "x1e", .operator .subtract, .number ⟨0x4014000000000000⟩] := by
  have nameLexemes : lexemesOf "x1e" = [.name "x1e"] := by
    have chars : "x1e".toList = ['x', '1', 'e'] := by decide
    rw [lexemesOf, chars, Scan.lexemesOfSome rfl, Scan.lexemesOfNone rfl]
    rfl
  have numberLexemes : lexemesOf "5" = [.number ⟨['5'], none, none⟩] := by
    have chars : "5".toList = ['5'] := by decide
    rw [lexemesOf, chars, Scan.lexemesOfSome rfl, Scan.lexemesOfNone rfl]
    rfl
  have value : (⟨['5'], none, none⟩ : Numeral).value? = some ⟨0x4014000000000000⟩ := by decide +kernel
  have name : Formula.ofText "x1e" = .ok (.ofTokens [.name "x1e"]) := by
    rw [Formula.ofText, ofTextOk, nameLexemes]
    exact ⟨.name _ .done, .cons (.name (by decide) (by decide) rfl) .nil, rfl⟩
  have number : Formula.ofText "5" = .ok (.ofTokens [.number ⟨0x4014000000000000⟩]) := by
    rw [Formula.ofText, ofTextOk, numberLexemes]
    exact ⟨.number _ .done, .cons (.number value) .nil, rfl⟩
  obtain ⟨h, built, tokens, _⟩ := (composedBuilds name number .subtract).1
  exact ⟨h, built, tokens⟩

end ArithmeticFormula
