import ArithmeticFormula.Fault
import ArithmeticFormula.Formula
import ArithmeticFormula.Lexeme
import ArithmeticFormula.Number.Binary64

/-! Evaluation on two stacks, both with the top first. A multiplication or division is carried out as
soon as its right operand is known, an addition or subtraction when the next of its kind or a closing
parenthesis arrives, so at most one of each kind waits at each parenthesis level. The machine takes any
token list, also one that is no formula, and then reports what it lacks or has left. Arithmetic is a
parameter; the standard one rounds each result to the nearest double, a half to the even one. -/
namespace ArithmeticFormula

structure Arithmetic where
  add : Binary64 → Binary64 → Binary64
  subtract : Binary64 → Binary64 → Binary64
  multiply : Binary64 → Binary64 → Binary64
  divide : Binary64 → Binary64 → Binary64
  isZero : Binary64 → Bool

namespace Arithmetic

def onFloats (operation : Float → Float → Float) (x y : Binary64) : Binary64 :=
  .ofFloat (operation x.toFloat y.toFloat)

def standard : Arithmetic where
  add := onFloats (· + ·)
  subtract := onFloats (· - ·)
  multiply := onFloats (· * ·)
  divide := onFloats (· / ·)
  isZero := Binary64.isZero

def apply (arithmetic : Arithmetic) (op : Operator) (left right : Binary64) :
    Except EvaluationFault Binary64 :=
  match op with
  | .add => .ok (arithmetic.add left right)
  | .subtract => .ok (arithmetic.subtract left right)
  | .multiply => .ok (arithmetic.multiply left right)
  | .divide =>
      if arithmetic.isZero right then .error .divideByZero else .ok (arithmetic.divide left right)

end Arithmetic

abbrev Lookup := String → Option Binary64

inductive Pending where
  | operator (op : Operator)
  | leftParen
  deriving DecidableEq, Repr

structure Machine where
  operands : List Binary64
  pending : List Pending
  deriving DecidableEq, Repr

namespace Machine

def start : Machine := ⟨[], []⟩

def topOperator? (multiplicative : Bool) : List Pending → Option (Operator × List Pending)
  | .operator op :: rest => if op.isMultiplicative = multiplicative then some (op, rest) else none
  | _ => none

def applyTop (arithmetic : Arithmetic) (op : Operator) (operands : List Binary64)
    (pending : List Pending) : Except EvaluationFault Machine :=
  match operands with
  | right :: left :: rest => do
      let value ← arithmetic.apply op left right
      return ⟨value :: rest, pending⟩
  | _ => .error (.stackUnderflow op.symbol)

def pushValue (arithmetic : Arithmetic) (m : Machine) (value : Binary64) :
    Except EvaluationFault Machine :=
  match topOperator? true m.pending with
  | some (op, rest) => applyTop arithmetic op (value :: m.operands) rest
  | none => .ok ⟨value :: m.operands, m.pending⟩

def collapse (arithmetic : Arithmetic) (multiplicative : Bool) (m : Machine) :
    Except EvaluationFault Machine :=
  match topOperator? multiplicative m.pending with
  | some (op, rest) => applyTop arithmetic op m.operands rest
  | none => .ok m

def pushOperator (arithmetic : Arithmetic) (m : Machine) (op : Operator) :
    Except EvaluationFault Machine :=
  if m.operands.isEmpty then .error (.stackUnderflow op.symbol)
  else if op.isMultiplicative then .ok ⟨m.operands, .operator op :: m.pending⟩
  else do
    let m ← m.collapse arithmetic false
    return ⟨m.operands, .operator op :: m.pending⟩

def closeParen (arithmetic : Arithmetic) (m : Machine) : Except EvaluationFault Machine := do
  let m ← m.collapse arithmetic false
  match m.pending with
  | .leftParen :: rest => collapse arithmetic true ⟨m.operands, rest⟩
  | _ => .error .mismatchedParenthesis

def step (arithmetic : Arithmetic) (lookup : Lookup) (m : Machine) :
    Token → Except EvaluationFault Machine
  | .number value => m.pushValue arithmetic value
  | .name name => (lookup name).elim (.error (.undefinedVariable name)) (m.pushValue arithmetic)
  | .operator op => m.pushOperator arithmetic op
  | .leftParen => .ok ⟨m.operands, .leftParen :: m.pending⟩
  | .rightParen => m.closeParen arithmetic

def finish (arithmetic : Arithmetic) (m : Machine) : Except EvaluationFault Binary64 :=
  let malformed := .error (.malformedResult m.operands.length m.pending.length)
  match m.pending, m.operands with
  | [], [value] => .ok value
  | [.operator op], [right, left] =>
      if op.isMultiplicative then malformed else arithmetic.apply op left right
  | _, _ => malformed

def feed (arithmetic : Arithmetic) (lookup : Lookup) (m : Machine) :
    List Token → Except EvaluationFault Machine
  | [] => .ok m
  | t :: rest =>
      match m.step arithmetic lookup t with
      | .ok next => feed arithmetic lookup next rest
      | .error fault => .error fault

def run (arithmetic : Arithmetic) (lookup : Lookup) (m : Machine) (tokens : List Token) :
    Except EvaluationFault Binary64 :=
  match m.feed arithmetic lookup tokens with
  | .ok last => last.finish arithmetic
  | .error fault => .error fault

def visited (arithmetic : Arithmetic) (lookup : Lookup) (m : Machine) :
    List Token → List (Token × Machine)
  | [] => []
  | t :: rest =>
      (t, m) ::
        match m.step arithmetic lookup t with
        | .ok next => visited arithmetic lookup next rest
        | .error _ => []

theorem feedAppend {arithmetic : Arithmetic} {lookup : Lookup} {m : Machine} (front back : List Token) :
    m.feed arithmetic lookup (front ++ back) =
      (m.feed arithmetic lookup front >>= fun next => next.feed arithmetic lookup back) := by
  induction front generalizing m with
  | nil => rfl
  | cons t rest ih =>
    simp only [List.cons_append, feed]
    split
    · exact ih
    · rfl

end Machine

def evaluateTokens (lookup : Lookup) (tokens : List Token) : Except EvaluationFault Binary64 :=
  Machine.start.run .standard lookup tokens

namespace Formula

def evaluateWith (arithmetic : Arithmetic) (f : Formula) (lookup : Lookup) :
    Except EvaluationFault Binary64 :=
  Machine.start.run arithmetic lookup f.tokens

def evaluate (f : Formula) (lookup : Lookup) : Except EvaluationFault Binary64 :=
  f.evaluateWith .standard lookup

def evaluateAll (f : Formula) (lookups : List Lookup) : List (Except EvaluationFault Binary64) :=
  lookups.map f.evaluate

end Formula

def evaluateText (text : String) (lookup : Lookup) : Except Fault Binary64 :=
  match Formula.ofText text with
  | .error fault => .error (.format fault)
  | .ok f => (f.evaluate lookup).mapError .evaluation

end ArithmeticFormula
