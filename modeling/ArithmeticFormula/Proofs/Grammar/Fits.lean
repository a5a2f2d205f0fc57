import ArithmeticFormula.Fault
import ArithmeticFormula.Grammar

/-! Expressions told by neighbours alone. Read from left to right, each place among the symbols has one
thing due, an operand or what continues one, and some parentheses open; a symbol fits there or not,
whatever follows. Main statement: the symbols that all fit, from a place where an operand is due and
nothing is open to one where neither is, are those that the grammar derives. -/
namespace ArithmeticFormula.Grammar

variable {ν σ : Type}

inductive Fits (a : Alphabet ν σ) : Expected → Nat → List σ → Prop where
  | done : Fits a .operatorOrClose 0 []
  | number {depth : Nat} {rest : List σ} (value : ν) (next : Fits a .operatorOrClose depth rest) :
      Fits a .operand depth (a.number value :: rest)
  | name {depth : Nat} {rest : List σ} (text : String) (next : Fits a .operatorOrClose depth rest) :
      Fits a .operand depth (a.name text :: rest)
  | leftParen {depth : Nat} {rest : List σ} (next : Fits a .operand (depth + 1) rest) :
      Fits a .operand depth (a.leftParen :: rest)
  | operator {depth : Nat} {rest : List σ} (op : Operator) (next : Fits a .operand depth rest) :
      Fits a .operatorOrClose depth (a.operator op :: rest)
  | rightParen {depth : Nat} {rest : List σ} (next : Fits a .operatorOrClose depth rest) :
      Fits a .operatorOrClose (depth + 1) (a.rightParen :: rest)

variable {a : Alphabet ν σ}

mutual

theorem Expression.fits (e : Expression ν) {depth : Nat} {rest : List σ}
    (next : Fits a .operatorOrClose depth rest) :
    Fits a .operand depth (e.write a ++ rest) := by
  cases e with
  | term t => exact t.fits next
  | chain left op additive right =>
    rw [Expression.write, List.append_assoc]
    exact left.fits (.operator op (right.fits next))

theorem Term.fits (t : Term ν) {depth : Nat} {rest : List σ}
    (next : Fits a .operatorOrClose depth rest) :
    Fits a .operand depth (t.write a ++ rest) := by
  cases t with
  | factor f => exact f.fits next
  | chain left op multiplicative right =>
    rw [Term.write, List.append_assoc]
    exact left.fits (.operator op (right.fits next))

theorem Factor.fits (f : Factor ν) {depth : Nat} {rest : List σ}
    (next : Fits a .operatorOrClose depth rest) :
    Fits a .operand depth (f.write a ++ rest) := by
  cases f with
  | number value => exact .number value next
  | name text => exact .name text next
  | group inner =>
    rw [Factor.write, List.cons_append, List.append_assoc]
    exact .leftParen (inner.fits (.rightParen next))

end

/- The symbols in front of a place, by what may be put there: between the last open parenthesis and the
place stand at most one finished expression with its operator and one finished term with its. -/
mutual

inductive BeforeExpression {ν σ : Type} (a : Alphabet ν σ) : Nat → List σ → Prop where
  | start : BeforeExpression a 0 []
  | opened {depth : Nat} {front : List σ} (outer : BeforeFactor a depth front) :
      BeforeExpression a (depth + 1) (front ++ [a.leftParen])

inductive BeforeTerm {ν σ : Type} (a : Alphabet ν σ) : Nat → List σ → Prop where
  | first {depth : Nat} {front : List σ} (outer : BeforeExpression a depth front) : BeforeTerm a depth front
  | later {depth : Nat} {front : List σ} (outer : BeforeExpression a depth front) (left : Expression ν) (op : Operator)
      (additive : op.isMultiplicative = false) :
      BeforeTerm a depth (front ++ left.write a ++ [a.operator op])

inductive BeforeFactor {ν σ : Type} (a : Alphabet ν σ) : Nat → List σ → Prop where
  | first {depth : Nat} {front : List σ} (outer : BeforeTerm a depth front) : BeforeFactor a depth front
  | later {depth : Nat} {front : List σ} (outer : BeforeTerm a depth front) (left : Term ν) (op : Operator)
      (multiplicative : op.isMultiplicative = true) :
      BeforeFactor a depth (front ++ left.write a ++ [a.operator op])

end

variable {expected : Expected} {depth : Nat} {front rest symbols : List σ}

theorem factorEndsTerm (place : BeforeFactor a depth front) (f : Factor ν) :
    ∃ base t, BeforeTerm a depth base ∧ front ++ f.write a = base ++ Term.write a t := by
  cases place with
  | first outer => exact ⟨front, .factor f, outer, rfl⟩
  | @later _ base outer left op multiplicative =>
    refine ⟨base, .chain left op multiplicative f, outer, ?_⟩
    simp only [Term.write, List.append_assoc, List.cons_append, List.nil_append]

theorem termEndsExpression (place : BeforeTerm a depth front) (t : Term ν) :
    ∃ base e, BeforeExpression a depth base ∧ front ++ t.write a = base ++ Expression.write a e := by
  cases place with
  | first outer => exact ⟨front, .term t, outer, rfl⟩
  | @later _ base outer left op additive =>
    refine ⟨base, .chain left op additive t, outer, ?_⟩
    simp only [Expression.write, List.append_assoc, List.cons_append, List.nil_append]

def Reached (a : Alphabet ν σ) : Expected → Nat → List σ → Prop
  | .operand, depth, front => BeforeFactor a depth front
  | .operatorOrClose, depth, front =>
      ∃ base t, BeforeTerm a depth base ∧ front = base ++ Term.write a t

theorem reachedFactor (place : Reached a .operand depth front) (f : Factor ν) :
    Reached a .operatorOrClose depth (front ++ f.write a) :=
  factorEndsTerm place f

theorem reachedLeftParen (place : Reached a .operand depth front) :
    Reached a .operand (depth + 1) (front ++ [a.leftParen]) :=
  .first (.first (.opened place))

theorem reachedOperator (place : Reached a .operatorOrClose depth front) (op : Operator) :
    Reached a .operand depth (front ++ [a.operator op]) := by
  obtain ⟨base, t, before, rfl⟩ := place
  cases kind : op.isMultiplicative with
  | true => exact .later before t op kind
  | false =>
    obtain ⟨outerBase, e, outer, same⟩ := termEndsExpression before t
    rw [same]
    exact .first (.later outer e op kind)

theorem reachedRightParen (place : Reached a .operatorOrClose (depth + 1) front) :
    Reached a .operatorOrClose depth (front ++ [a.rightParen]) := by
  obtain ⟨base, t, before, rfl⟩ := place
  obtain ⟨groupBase, e, group, same⟩ := termEndsExpression before t
  cases group with
  | @opened _ outerBase outer =>
    have closed : outerBase ++ (Factor.group e).write a = outerBase ++ [a.leftParen] ++ e.write a
        ++ [a.rightParen] := by
      simp only [Factor.write, List.append_assoc, List.cons_append, List.nil_append]
    rw [same, ← closed]
    exact reachedFactor outer (.group e)

theorem reachedEnd (place : Reached a .operatorOrClose 0 front) : Derives a front := by
  obtain ⟨base, t, before, rfl⟩ := place
  obtain ⟨outerBase, e, outer, same⟩ := termEndsExpression before t
  cases outer
  exact ⟨e, same.symm⟩

theorem derivesOfFits (fits : Fits a expected depth rest) (place : Reached a expected depth front) :
    Derives a (front ++ rest) := by
  -- one symbol moves from the rest to the front, and the place with it
  induction fits generalizing front with
  | done => simpa using reachedEnd place
  | number value _ ih => simpa [Factor.write] using ih (reachedFactor place (.number value))
  | name text _ ih => simpa [Factor.write] using ih (reachedFactor place (.name text))
  | leftParen _ ih => simpa using ih (reachedLeftParen place)
  | operator op _ ih => simpa using ih (reachedOperator place op)
  | rightParen _ ih => simpa using ih (reachedRightParen place)

theorem derivesIffFits : Derives a symbols ↔ Fits a .operand 0 symbols := by
  constructor
  · intro given
    obtain ⟨e, rfl⟩ := given
    simpa using e.fits (a := a) .done
  · exact fun fits => derivesOfFits fits (.first (.first .start))

theorem fitsBefore (fits : Fits a .operand 0 front) (next : Fits a .operatorOrClose depth rest) :
    Fits a .operand depth (front ++ rest) := by
  obtain ⟨e, rfl⟩ := derivesIffFits.2 fits
  exact e.fits next

end ArithmeticFormula.Grammar
