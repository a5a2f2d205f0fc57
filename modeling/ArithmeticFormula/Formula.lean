import ArithmeticFormula.Lexeme
import ArithmeticFormula.Naming
import ArithmeticFormula.Number.Layout
import ArithmeticFormula.Scan
import ArithmeticFormula.Text

/-! Formulas from text. Tokens are numbers by value and variables by their normalized name. The lexemes of a
text must begin and end like an operand; then each is checked against the one before it, counted if it is a
parenthesis, and turned into a token, a name being entered in the set of variables, and the first fault met on
the way is the answer. A stray lexeme is refused for itself and never for its neighbours. Two formulas are equal
if their tokens agree, numbers by value; a formula is hashed by its canonical text. -/
namespace ArithmeticFormula

inductive Token where
  | number (value : Binary64)
  | name (text : String)
  | operator (op : Operator)
  | leftParen
  | rightParen
  deriving DecidableEq, Repr

namespace Token

def chars : Token → List Char
  | number value => Layout.plain.chars value
  | name text => text.toList
  | operator op => [op.symbol]
  | leftParen => ['(']
  | rightParen => [')']

def text (t : Token) : String := String.ofList t.chars

def written (tokens : List Token) : String := String.ofList (tokens.flatMap chars)

def kind : Token → Kind
  | number _ => .number
  | name _ => .name
  | operator _ => .operator
  | leftParen => .leftParen
  | rightParen => .rightParen

def sameValue : Token → Token → Bool
  | number x, number y => x.sameValue y
  | number _, _ => false
  | _, number _ => false
  | t, u => t == u

end Token

structure Formula where
  tokens : List Token
  canonical : String
  variableSet : TextSet
  deriving Repr

namespace Formula

def names (f : Formula) : List String := f.variableSet.texts

instance : BEq Formula := ⟨fun f g => f.tokens.isEqv g.tokens Token.sameValue⟩

instance : Hashable Formula := ⟨fun f => hash f.canonical⟩

def sameHash (f g : Formula) : Bool := hash f == hash g

end Formula

def Kind.expectedNext (k : Kind) : Expected :=
  if k.endsOperand then .operatorOrClose else .operand

def Kind.meets (k : Kind) : Expected → Bool
  | .operand => k.beginsOperand
  | .operatorOrClose => k.continuesOperand

/-- The second kind may stand next to the first. Stray lexemes are judged elsewhere. -/
def Kind.admitsNext (k next : Kind) : Bool :=
  k == .stray || next == .stray || next.meets k.expectedNext

structure Place where
  position : Nat
  depth : Nat
  previous : Option Lexeme
  deriving DecidableEq, Repr

namespace Place

def start : Place := ⟨0, 0, none⟩

def checkNeighbour (place : Place) (l : Lexeme) : Except FormatFault Unit :=
  match place.previous with
  | none => .ok ()
  | some previous =>
      if previous.kind.admitsNext l.kind then .ok ()
      else
        .error (.unexpectedToken l.text previous.text place.position previous.kind.expectedNext)

def depthAfter (place : Place) : Lexeme → Except FormatFault Nat
  | .leftParen => .ok (place.depth + 1)
  | .rightParen =>
      match place.depth with
      | 0 => .error (.unmatchedClose place.position)
      | depth + 1 => .ok depth
  | _ => .ok place.depth

end Place

namespace Lexeme

def enter (naming : Naming) (known : TextSet) : Lexeme → Except FormatFault (Token × TextSet)
  | leftParen => .ok (.leftParen, known)
  | rightParen => .ok (.rightParen, known)
  | operator op => .ok (.operator op, known)
  | name raw => do
      let name ← naming.resolve raw
      return (.name name, known.insert name)
  | number numeral =>
      match numeral.value? with
      | some value => .ok (.number value, known)
      | none => .error (.invalidNumber numeral.text)
  | stray text => .error (.unrecognized text)

def toToken (naming : Naming) (l : Lexeme) : Except FormatFault Token :=
  (l.enter naming .empty).map Prod.fst

end Lexeme

namespace Formula

def tokensFrom (naming : Naming) :
    Place → TextSet → List Lexeme → Except FormatFault (List Token × TextSet)
  | place, known, [] => if place.depth = 0 then .ok ([], known) else .error (.unclosed place.depth)
  | place, known, l :: rest => do
      place.checkNeighbour l
      let depth ← place.depthAfter l
      let (t, known) ← l.enter naming known
      let (tokens, known) ← tokensFrom naming ⟨place.position + 1, depth, some l⟩ known rest
      return (t :: tokens, known)

def ofRead (read : List Token × TextSet) : Formula := ⟨read.1, Token.written read.1, read.2⟩

def ofLexemes (naming : Naming) (lexemes : List Lexeme) : Except FormatFault Formula :=
  match lexemes.head?, lexemes.getLast? with
  | some first, some last =>
      if !first.kind.beginsOperand then .error (.invalidStart first.text)
      else if !last.kind.endsOperand then .error (.invalidEnd last.text)
      else (tokensFrom naming .start .empty lexemes).map ofRead
  | _, _ => .error .noTokens

def ofTextWith (naming : Naming) (text : String) : Except FormatFault Formula :=
  if text.isEmpty then .error .empty else ofLexemes naming (lexemesOf text)

def ofText (text : String) : Except FormatFault Formula := ofTextWith .asWritten text

end Formula
end ArithmeticFormula
