import ArithmeticFormula.Formula
import ArithmeticFormula.Lexeme
import ArithmeticFormula.Machine

/-! Expressions by their grammar: terms chained by addition and subtraction, factors chained by
multiplication and division, and numbers, names and groups in parentheses. Both chains lean to the left.
There is no sign before an operand and no empty group. The numbers are of any type, so that one grammar
covers what is read, numerals, and what is evaluated, doubles. The value is that of the left operand, then
the right one, then the operator, with the first fault met in this order as the answer. -/
namespace ArithmeticFormula

namespace Grammar

mutual

inductive Expression (ν : Type) where
  | term (t : Term ν)
  | chain (left : Expression ν) (op : Operator) (additive : op.isMultiplicative = false)
      (right : Term ν)

inductive Term (ν : Type) where
  | factor (f : Factor ν)
  | chain (left : Term ν) (op : Operator) (multiplicative : op.isMultiplicative = true)
      (right : Factor ν)

inductive Factor (ν : Type) where
  | number (value : ν)
  | name (text : String)
  | group (inner : Expression ν)

end

structure Alphabet (ν σ : Type) where
  number : ν → σ
  name : String → σ
  operator : Operator → σ
  leftParen : σ
  rightParen : σ

def tokens : Alphabet Binary64 ArithmeticFormula.Token :=
  ⟨.number, .name, .operator, .leftParen, .rightParen⟩

def lexemes : Alphabet Numeral Lexeme := ⟨.number, .name, .operator, .leftParen, .rightParen⟩

mutual

def Expression.write {ν σ : Type} (a : Alphabet ν σ) : Expression ν → List σ
  | .term t => t.write a
  | .chain left op _ right => left.write a ++ a.operator op :: right.write a

def Term.write {ν σ : Type} (a : Alphabet ν σ) : Term ν → List σ
  | .factor f => f.write a
  | .chain left op _ right => left.write a ++ a.operator op :: right.write a

def Factor.write {ν σ : Type} (a : Alphabet ν σ) : Factor ν → List σ
  | .number value => [a.number value]
  | .name text => [a.name text]
  | .group inner => a.leftParen :: (inner.write a ++ [a.rightParen])

end

def Derives {ν σ : Type} (a : Alphabet ν σ) (symbols : List σ) : Prop :=
  ∃ e : Expression ν, e.write a = symbols

end Grammar

namespace Grammar

mutual

def Expression.evaluate (arithmetic : Arithmetic) (lookup : Lookup) :
    Expression Binary64 → Except EvaluationFault Binary64
  | .term t => t.evaluate arithmetic lookup
  | .chain left op _ right => do
      let x ← left.evaluate arithmetic lookup
      let y ← right.evaluate arithmetic lookup
      arithmetic.apply op x y

def Term.evaluate (arithmetic : Arithmetic) (lookup : Lookup) :
    Term Binary64 → Except EvaluationFault Binary64
  | .factor f => f.evaluate arithmetic lookup
  | .chain left op _ right => do
      let x ← left.evaluate arithmetic lookup
      let y ← right.evaluate arithmetic lookup
      arithmetic.apply op x y

def Factor.evaluate (arithmetic : Arithmetic) (lookup : Lookup) :
    Factor Binary64 → Except EvaluationFault Binary64
  | .number value => .ok value
  | .name text => (lookup text).elim (.error (.undefinedVariable text)) .ok
  | .group inner => inner.evaluate arithmetic lookup

end

end Grammar

end ArithmeticFormula
