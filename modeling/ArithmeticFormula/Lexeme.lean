import ArithmeticFormula.Number.Numeral

/-! Lexemes, the pieces a formula's text is cut into, and their kinds: which an operand can begin with, end
with and be followed by. A stray lexeme is a run of characters at none of which another lexeme starts;
scanning keeps it and only a formula refuses it. -/
namespace ArithmeticFormula

inductive Kind where
  | leftParen
  | rightParen
  | operator
  | name
  | number
  | stray
  deriving DecidableEq, Repr

namespace Kind

def beginsOperand : Kind → Bool
  | leftParen | name | number => true
  | rightParen | operator | stray => false

def endsOperand : Kind → Bool
  | rightParen | name | number => true
  | leftParen | operator | stray => false

def continuesOperand : Kind → Bool
  | rightParen | operator => true
  | leftParen | name | number | stray => false

end Kind

inductive Operator where
  | add
  | subtract
  | multiply
  | divide
  deriving DecidableEq, Repr

structure UnknownOperator where
  text : String
  deriving DecidableEq, Repr

def UnknownOperator.message (unknown : UnknownOperator) : String :=
  "Unknown operator: " ++ unknown.text

namespace Operator

def symbol : Operator → Char
  | .add => '+'
  | .subtract => '-'
  | .multiply => '*'
  | .divide => '/'

def isMultiplicative : Operator → Bool
  | .add | .subtract => false
  | .multiply | .divide => true

def ofSymbol? : Char → Option Operator
  | '+' => some .add
  | '-' => some .subtract
  | '*' => some .multiply
  | '/' => some .divide
  | _ => none

def ofText (text : String) : Except UnknownOperator Operator :=
  match text.toList with
  | [c] => (ofSymbol? c).elim (.error ⟨text⟩) .ok
  | _ => .error ⟨text⟩

theorem ofSymbolIff {c : Char} {op : Operator} :
    ofSymbol? c = some op ↔ c = op.symbol := by
  constructor
  · intro read
    unfold ofSymbol? at read
    split at read <;> cases read <;> rfl
  · intro same
    subst same
    cases op <;> rfl

end Operator

inductive Lexeme where
  | leftParen
  | rightParen
  | operator (op : Operator)
  | name (text : String)
  | number (numeral : Numeral)
  | stray (text : String)
  deriving DecidableEq, Repr

namespace Lexeme

def chars : Lexeme → List Char
  | leftParen => ['(']
  | rightParen => [')']
  | operator op => [op.symbol]
  | name text => text.toList
  | number numeral => numeral.chars
  | stray text => text.toList

def text (l : Lexeme) : String := String.ofList l.chars

def kind : Lexeme → Kind
  | leftParen => .leftParen
  | rightParen => .rightParen
  | operator _ => .operator
  | name _ => .name
  | number _ => .number
  | stray _ => .stray

end Lexeme

end ArithmeticFormula
