import ArithmeticFormula.Grammar

/-! The machine on the tokens of an expression. It may stand on anything: whatever both stacks hold
underneath stays as it is. A factor is pushed as one value, a term leaves one value, and an expression
leaves one value or two with the addition or subtraction still to come; what ends the expression carries
that out. The first fault met on the way is the fault of the expression. -/
namespace ArithmeticFormula.Machine

variable {arithmetic : Arithmetic} {lookup : Lookup}
variable {operands : List Binary64} {pending : List Pending}
variable {result : Except EvaluationFault Binary64} {reached : Except EvaluationFault Machine}

theorem feedCons (m : Machine) (t : Token) (rest : List Token) :
    m.feed arithmetic lookup (t :: rest) =
      (m.step arithmetic lookup t >>= fun next => next.feed arithmetic lookup rest) := by
  rw [feed]
  cases m.step arithmetic lookup t <;> rfl

theorem feedOne (m : Machine) (t : Token) :
    m.feed arithmetic lookup [t] = m.step arithmetic lookup t := by
  rw [feedCons]
  cases m.step arithmetic lookup t <;> rfl

def Opened (pending : List Pending) : Prop :=
  ∀ multiplicative, topOperator? multiplicative pending = none

theorem openedNil : Opened [] := fun _ => rfl

theorem openedLeftParen : Opened (.leftParen :: pending) := fun _ => rfl

theorem pushValueFree (free : topOperator? true pending = none) (value : Binary64) :
    pushValue arithmetic ⟨operands, pending⟩ value = .ok ⟨value :: operands, pending⟩ := by
  simp only [pushValue, free]

theorem pushValueWaiting {op : Operator} (multiplicative : op.isMultiplicative = true)
    (left right : Binary64) :
    pushValue arithmetic ⟨left :: operands, .operator op :: pending⟩ right =
      (arithmetic.apply op left right).map fun value => ⟨value :: operands, pending⟩ := by
  simp only [pushValue, topOperator?, multiplicative, if_true, applyTop]
  cases arithmetic.apply op left right <;> rfl

inductive Carries (arithmetic : Arithmetic) (operands : List Binary64) (pending : List Pending) :
    Except EvaluationFault Binary64 → Except EvaluationFault Machine → Prop where
  | failed (fault : EvaluationFault) : Carries arithmetic operands pending (.error fault) (.error fault)
  | settled (value : Binary64) :
      Carries arithmetic operands pending (.ok value) (.ok ⟨value :: operands, pending⟩)
  | waiting (op : Operator) (additive : op.isMultiplicative = false) (left right : Binary64) :
      Carries arithmetic operands pending (arithmetic.apply op left right)
        (.ok ⟨right :: left :: operands, .operator op :: pending⟩)

theorem collapseSettled (opened : Opened pending) :
    collapse arithmetic false ⟨operands, pending⟩ = .ok ⟨operands, pending⟩ := by
  simp only [collapse, opened false]

theorem collapseWaiting {op : Operator} (additive : op.isMultiplicative = false)
    (left right : Binary64) :
    collapse arithmetic false ⟨right :: left :: operands, .operator op :: pending⟩ =
      (arithmetic.apply op left right).map fun value => ⟨value :: operands, pending⟩ := by
  simp only [collapse, topOperator?, additive, if_true, applyTop]
  cases arithmetic.apply op left right <;> rfl

theorem carriesAdditive (carries : Carries arithmetic operands pending result reached)
    (opened : Opened pending) {op : Operator} (additive : op.isMultiplicative = false) :
    (reached >>= fun m => m.pushOperator arithmetic op) =
      result.map fun value => ⟨value :: operands, .operator op :: pending⟩ := by
  cases carries with
  | failed fault => rfl
  | settled value =>
    rw [Outcome.okBind]
    simp only [pushOperator, additive, collapseSettled opened]
    rfl
  | waiting first before left right =>
    rw [Outcome.okBind]
    simp only [pushOperator, additive, collapseWaiting before]
    cases arithmetic.apply first left right <;> rfl

theorem carriesClose (carries : Carries arithmetic operands (.leftParen :: pending) result reached) :
    (reached >>= fun m => m.closeParen arithmetic) =
      (result >>= fun value => pushValue arithmetic ⟨operands, pending⟩ value) := by
  cases carries with
  | failed fault => rfl
  | settled value =>
    rw [Outcome.okBind]
    simp only [closeParen, collapseSettled openedLeftParen]
    rfl
  | waiting op additive left right =>
    rw [Outcome.okBind]
    simp only [closeParen, collapseWaiting additive]
    cases arithmetic.apply op left right <;> rfl

theorem carriesFinish (carries : Carries arithmetic [] [] result reached) :
    (reached >>= fun m => m.finish arithmetic) = result := by
  cases carries with
  | failed fault => rfl
  | settled value => rfl
  | waiting op additive left right =>
    rw [Outcome.okBind]
    simp only [finish, additive]
    rfl

end ArithmeticFormula.Machine

namespace ArithmeticFormula.Grammar
open Machine

variable {arithmetic : Arithmetic} {lookup : Lookup}

theorem feedOperator (m : Machine) (left right : List Token) (op : Operator) :
    m.feed arithmetic lookup (left ++ tokens.operator op :: right) =
      (m.feed arithmetic lookup left >>= fun next => next.pushOperator arithmetic op) >>=
        fun next => next.feed arithmetic lookup right := by
  rw [feedAppend, bind_assoc]
  simp only [feedCons]
  rfl

theorem feedGroup (m : Machine) (inner : List Token) :
    m.feed arithmetic lookup (tokens.leftParen :: (inner ++ [tokens.rightParen])) =
      (feed arithmetic lookup ⟨m.operands, .leftParen :: m.pending⟩ inner >>=
        fun next => next.closeParen arithmetic) := by
  have opened : m.step arithmetic lookup .leftParen = .ok ⟨m.operands, .leftParen :: m.pending⟩ := rfl
  rw [feedCons, tokens, opened, Outcome.okBind, feedAppend]
  simp only [feedOne]
  rfl

/- A term starts where no multiplication waits, an expression where nothing does; a factor may start
anywhere. -/
mutual

theorem Expression.carried (e : Expression Binary64) {operands : List Binary64} {pending : List Pending}
    (opened : Opened pending) :
    Carries arithmetic operands pending (e.evaluate arithmetic lookup)
      (feed arithmetic lookup ⟨operands, pending⟩ (e.write tokens)) := by
  cases e with
  | term t =>
    rw [Expression.write, Expression.evaluate, t.fed (opened true)]
    cases t.evaluate arithmetic lookup with
    | error fault => exact .failed fault
    | ok value => exact .settled value
  | chain left op additive right =>
    have free : topOperator? true (.operator op :: pending) = none := by simp [topOperator?, additive]
    rw [Expression.write, Expression.evaluate, feedOperator,
      carriesAdditive (left.carried opened) opened additive]
    cases left.evaluate arithmetic lookup with
    | error fault => exact .failed fault
    | ok x =>
      rw [Outcome.okBind, Except.map, Outcome.okBind, right.fed free]
      cases right.evaluate arithmetic lookup with
      | error fault => exact .failed fault
      | ok y => exact .waiting op additive x y

theorem Term.fed (t : Term Binary64) {operands : List Binary64} {pending : List Pending}
    (free : topOperator? true pending = none) :
    feed arithmetic lookup ⟨operands, pending⟩ (t.write tokens) =
      (t.evaluate arithmetic lookup).map fun value => ⟨value :: operands, pending⟩ := by
  cases t with
  | factor f =>
    rw [Term.write, Term.evaluate, f.fed]
    simp only [pushValueFree free]
    cases f.evaluate arithmetic lookup <;> rfl
  | chain left op multiplicative right =>
    rw [Term.write, Term.evaluate, feedOperator, left.fed free]
    cases left.evaluate arithmetic lookup with
    | error fault => rfl
    | ok x =>
      have pushed : pushOperator arithmetic ⟨x :: operands, pending⟩ op =
          .ok ⟨x :: operands, .operator op :: pending⟩ := by
        simp [pushOperator, multiplicative]
      rw [Except.map, Outcome.okBind, Outcome.okBind, pushed, Outcome.okBind, right.fed]
      simp only [pushValueWaiting multiplicative]
      cases right.evaluate arithmetic lookup <;> rfl

theorem Factor.fed (f : Factor Binary64) (m : Machine) :
    m.feed arithmetic lookup (f.write tokens) =
      (f.evaluate arithmetic lookup >>= fun value => m.pushValue arithmetic value) := by
  cases f with
  | number value => exact feedOne m _
  | name text =>
    rw [Factor.write, Factor.evaluate, feedOne, tokens, step]
    cases lookup text <;> rfl
  | group inner =>
    rw [Factor.write, Factor.evaluate, feedGroup]
    exact carriesClose (inner.carried openedLeftParen)

end

theorem applyFault {op : Operator} {left right : Binary64} {fault : EvaluationFault}
    (failed : arithmetic.apply op left right = .error fault) : fault = .divideByZero := by
  cases op with
  | divide =>
    simp only [Arithmetic.apply] at failed
    split at failed
    · exact (Except.error.inj failed).symm
    · cases failed
  | add | subtract | multiply => cases failed

def Explained (lookup : Lookup) (written : List Token) (fault : EvaluationFault) : Prop :=
  fault = .divideByZero ∨
    ∃ name, .name name ∈ written ∧ lookup name = none ∧ fault = .undefinedVariable name

theorem explainedWithin {written whole : List Token} {fault : EvaluationFault}
    (explained : Explained lookup written fault) (within : written ⊆ whole) :
    Explained lookup whole fault := by
  obtain zero | ⟨name, member, unbound, same⟩ := explained
  · exact .inl zero
  · exact .inr ⟨name, within member, unbound, same⟩

theorem chainExplained {x y : Except EvaluationFault Binary64} {op : Operator} {left right : List Token}
    {fault : EvaluationFault} (onLeft : x = .error fault → Explained lookup left fault)
    (onRight : y = .error fault → Explained lookup right fault)
    (failed : (x >>= fun left => y >>= fun right => arithmetic.apply op left right) = .error fault) :
    Explained lookup (left ++ tokens.operator op :: right) fault := by
  obtain first | ⟨_, _, later⟩ := Outcome.bindError.1 failed
  · exact explainedWithin (onLeft first) (List.subset_append_left _ _)
  · obtain second | ⟨_, _, applied⟩ := Outcome.bindError.1 later
    · exact explainedWithin (onRight second)
        (List.Subset.trans (List.subset_cons_self _ _) (List.subset_append_right _ _))
    · exact .inl (applyFault applied)

mutual

theorem Expression.explained (e : Expression Binary64) {fault : EvaluationFault}
    (failed : e.evaluate arithmetic lookup = .error fault) : Explained lookup (e.write tokens) fault := by
  cases e with
  | term t => exact t.explained failed
  | chain left op additive right => exact chainExplained left.explained right.explained failed

theorem Term.explained (t : Term Binary64) {fault : EvaluationFault}
    (failed : t.evaluate arithmetic lookup = .error fault) : Explained lookup (t.write tokens) fault := by
  cases t with
  | factor f => exact f.explained failed
  | chain left op multiplicative right => exact chainExplained left.explained right.explained failed

theorem Factor.explained (f : Factor Binary64) {fault : EvaluationFault}
    (failed : f.evaluate arithmetic lookup = .error fault) : Explained lookup (f.write tokens) fault := by
  cases f with
  | number value => cases failed
  | name text =>
    rw [Factor.evaluate] at failed
    cases found : lookup text with
    | none =>
      rw [found] at failed
      exact .inr ⟨text, List.mem_singleton.2 rfl, found, (Except.error.inj failed).symm⟩
    | some value =>
      rw [found] at failed
      cases failed
  | group inner =>
    exact explainedWithin (inner.explained failed)
      (List.Subset.trans (List.subset_append_left _ _) (List.subset_cons_self _ _))

end

theorem Expression.run (e : Expression Binary64) :
    Machine.start.run arithmetic lookup (e.write tokens) = e.evaluate arithmetic lookup := by
  have carried : Carries arithmetic [] [] (e.evaluate arithmetic lookup)
      (feed arithmetic lookup .start (e.write tokens)) := e.carried openedNil
  rw [← carriesFinish carried, Machine.run]
  cases feed arithmetic lookup .start (e.write tokens) <;> rfl

end ArithmeticFormula.Grammar
