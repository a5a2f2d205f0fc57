import ArithmeticFormula.Machine
import ArithmeticFormula.Text

/-! The journal, a line for each step of building and evaluating a formula: the text before it is read,
the canonical text once it is read, each token with both stacks just before it is processed, and the
result. Stacks are written from the bottom up. Quoted text shows control characters, and blanks other than
the space, by short escapes or by their code point. -/
namespace ArithmeticFormula

def isControl (c : Char) : Bool := c.toNat < 0x20 || (0x7F ≤ c.toNat && c.toNat ≤ 0x9F)

def escapedChar (c : Char) : List Char :=
  match c with
  | '"' => ['\\', '"']
  | '\\' => ['\\', '\\']
  | '\t' => ['\\', 't']
  | '\n' => ['\\', 'n']
  | '\r' => ['\\', 'r']
  | '\x00' => ['\\', '0']
  | ' ' => [' ']
  | c =>
      if isControl c || isBlank c then
        ['\\', 'u', '\x7b'] ++ Nat.toDigits 16 c.toNat ++ ['\x7d']
      else [c]

def quoted (text : String) : String :=
  String.ofList ('"' :: (text.toList.flatMap escapedChar ++ ['"']))

inductive Level where
  | debug
  | trace
  deriving DecidableEq, Repr

def Level.label : Level → String
  | .debug => "DEBUG"
  | .trace => "TRACE"

inductive Event where
  | building (text : String)
  | built (f : Formula)
  | reached (t : Token) (m : Machine)
  | evaluated (f : Formula) (result : Except EvaluationFault Binary64)

namespace Journal

def operatorLabel : Operator → String
  | .add => "Add"
  | .subtract => "Subtract"
  | .multiply => "Multiply"
  | .divide => "Divide"

def pendingText : Pending → String
  | .operator op => "Operator(" ++ operatorLabel op ++ ")"
  | .leftParen => "LeftParen"

def bracketed (texts : List String) : String := "[" ++ ", ".intercalate texts ++ "]"

def braced (label field : String) : String := label ++ " \x7b " ++ field ++ " \x7d"

def faultText : EvaluationFault → String
  | .undefinedVariable name => braced "UndefinedVariable" ("name: " ++ quoted name)
  | .divideByZero => "DivideByZero"
  | .stackUnderflow operator => braced "StackUnderflow" s!"operator: '{operator}'"
  | .mismatchedParenthesis => "MismatchedParenthesis"
  | .malformedResult operands operators =>
      braced "MalformedResult" s!"operands: {operands}, operators: {operators}"

def resultText : Except EvaluationFault Binary64 → String
  | .ok value => "Ok(" ++ Layout.journal.text value ++ ")"
  | .error fault => "Err(" ++ faultText fault ++ ")"

end Journal

namespace Event

def level : Event → Level
  | building _ | built _ | evaluated _ _ => .debug
  | reached _ _ => .trace

def message : Event → String
  | building text => "Building formula: " ++ quoted text
  | built f => "Canonical formula: " ++ f.canonical
  | reached t m =>
      "Token " ++ t.text ++ ", operands "
        ++ Journal.bracketed (m.operands.reverse.map Layout.journal.text) ++ ", operators "
        ++ Journal.bracketed (m.pending.reverse.map Journal.pendingText)
  | evaluated f result => "Evaluated " ++ f.canonical ++ " => " ++ Journal.resultText result

def line (event : Event) : String := event.level.label ++ " " ++ event.message

end Event

namespace Journal

def ofBuild (naming : Naming) (text : String) : List Event :=
  .building text :: (match Formula.ofTextWith naming text with
    | .ok f => [.built f]
    | .error _ => [])

def ofTokens (lookup : Lookup) (tokens : List Token) : List Event :=
  (Machine.start.visited .standard lookup tokens).map fun entry => .reached entry.1 entry.2

def ofEvaluation (f : Formula) (lookup : Lookup) : List Event :=
  ofTokens lookup f.tokens ++ [.evaluated f (f.evaluate lookup)]

def ofText (naming : Naming) (text : String) (lookup : Lookup) : List Event :=
  ofBuild naming text ++ (match Formula.ofTextWith naming text with
    | .ok f => ofEvaluation f lookup
    | .error _ => [])

end Journal

end ArithmeticFormula
