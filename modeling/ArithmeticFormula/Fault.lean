/-! What can go wrong, by cause, and what a reader is told. A format fault is a fault of the text and
of the naming policy; no binding of variables mends it. An evaluation fault may be gone under other
bindings. -/
namespace ArithmeticFormula

inductive Expected where
  | operand
  | operatorOrClose
  deriving DecidableEq, Repr

def Expected.description : Expected → String
  | .operand => "a number, a variable or '('"
  | .operatorOrClose => "an operator or ')'"

inductive FormatFault where
  | empty
  | noTokens
  | invalidStart (token : String)
  | invalidEnd (token : String)
  | unexpectedToken (token previous : String) (position : Nat) (expected : Expected)
  | unmatchedClose (position : Nat)
  | unclosed (count : Nat)
  | invalidVariable (name : String)
  | invalidNormalizedVariable (raw normalized : String)
  | rejectedVariable (name : String)
  | invalidNumber (text : String)
  | unrecognized (text : String)
  deriving DecidableEq, Repr

def FormatFault.message : FormatFault → String
  | empty => "formula is empty"
  | noTokens => "formula contains no tokens"
  | invalidStart token =>
      s!"formula cannot start with '{token}': expected a number, a variable or '('"
  | invalidEnd token => s!"formula cannot end with '{token}': expected a number, a variable or ')'"
  | unexpectedToken token previous position expected =>
      let needed := expected.description
      s!"'{token}' at token {position} cannot follow '{previous}': expected {needed}"
  | unmatchedClose position => s!"')' at token {position} has no matching '('"
  | unclosed count => s!"{count} '(' left unclosed"
  | invalidVariable name => s!"invalid variable name '{name}'"
  | invalidNormalizedVariable raw normalized =>
      s!"normalizer produced an invalid variable name: '{raw}' became '{normalized}'"
  | rejectedVariable name => s!"variable rejected by validity predicate: '{name}'"
  | invalidNumber text => s!"invalid number literal '{text}'"
  | unrecognized text => s!"unrecognized token '{text}'"

inductive EvaluationFault where
  | undefinedVariable (name : String)
  | divideByZero
  | stackUnderflow (operator : Char)
  | mismatchedParenthesis
  | malformedResult (operands operators : Nat)
  deriving DecidableEq, Repr

def EvaluationFault.message : EvaluationFault → String
  | undefinedVariable name => s!"undefined variable '{name}'"
  | divideByZero => "division by zero"
  | stackUnderflow operator => s!"not enough operands for '{operator}'"
  | mismatchedParenthesis => "mismatched parenthesis"
  | malformedResult operands operators =>
      s!"malformed result: {operands} operand(s) and {operators} operator(s) left"

inductive Fault where
  | format (fault : FormatFault)
  | evaluation (fault : EvaluationFault)
  deriving DecidableEq, Repr

def Fault.message : Fault → String
  | format fault => "format error: " ++ fault.message
  | evaluation fault => "evaluation error: " ++ fault.message

namespace Outcome

variable {ε α β : Type} {outcome : Except ε α} {next : α → Except ε β}

theorem okBind (first : α) : (Except.ok first >>= next) = next first := rfl

theorem bindOk {value : β} :
    outcome >>= next = .ok value ↔ ∃ first, outcome = .ok first ∧ next first = .ok value := by
  cases outcome with
  | error fault => simp [bind, Except.bind]
  | ok first => simp [bind, Except.bind]

theorem bindError {fault : ε} :
    outcome >>= next = .error fault ↔
      outcome = .error fault ∨ ∃ first, outcome = .ok first ∧ next first = .error fault := by
  cases outcome with
  | error fault => simp [bind, Except.bind]
  | ok first => simp [bind, Except.bind]

theorem mapOk {f : α → β} {value : β} :
    outcome.map f = .ok value ↔ ∃ first, outcome = .ok first ∧ f first = value := by
  cases outcome with
  | error fault => simp [Except.map]
  | ok first => simp [Except.map]

theorem mapError {f : α → β} {fault : ε} : outcome.map f = .error fault ↔ outcome = .error fault := by
  cases outcome <;> simp [Except.map]

end Outcome

end ArithmeticFormula
