import ArithmeticFormula.Proofs.Machine.Conserved
import ArithmeticFormula.Proofs.Machine.Lookups

/-! What the machine says of token lists that are no formulas. An operand stack on which something lies has
something on it ever after, so an operator finds it empty only in front of every value, and an operation that
comes to be carried out finds one operand at least. Main statement: the stacks agree with the counts of the
tokens at every point, and so do a result, the counts of what is left and the cause of a missing operand. -/
namespace ArithmeticFormula

namespace Machine

variable {arithmetic : Arithmetic} {lookup : Lookup} {m next found : Machine} {t : Token}
variable {tokens : List Token} {op : Operator} {operands : List Binary64} {pending rest : List Pending}
variable {multiplicative : Bool} {fault : EvaluationFault} {symbol : Char}

theorem applyTopPresent (applied : applyTop arithmetic op operands pending = .ok next) :
    next.operands ≠ [] := by
  unfold applyTop at applied
  split at applied
  · obtain ⟨value, _, same⟩ := Outcome.bindOk.1 applied
    cases same
    exact List.cons_ne_nil _ _
  · cases applied

theorem collapseEmpty (collapsed : m.collapse arithmetic multiplicative = .ok next)
    (empty : next.operands = []) : m.operands = [] := by
  unfold collapse at collapsed
  split at collapsed
  · exact absurd empty (applyTopPresent collapsed)
  · cases collapsed
    exact empty

theorem pushValuePresent {value : Binary64} (pushed : m.pushValue arithmetic value = .ok next) :
    next.operands ≠ [] := by
  rw [pushValueCollapse] at pushed
  exact fun empty => nomatch collapseEmpty pushed empty

theorem pushOperatorPresent (pushed : m.pushOperator arithmetic op = .ok next) : next.operands ≠ [] := by
  have present : m.operands ≠ [] := by
    intro empty
    simp only [pushOperator, empty, List.isEmpty_nil, if_true] at pushed
    cases pushed
  obtain ⟨_, rfl⟩ | ⟨_, settled, collapsed, rfl⟩ := pushOperatorOk pushed
  · exact present
  · exact fun empty => present (collapseEmpty collapsed empty)

theorem closeParenEmpty (closed : m.closeParen arithmetic = .ok next) (empty : next.operands = []) :
    m.operands = [] := by
  obtain ⟨settled, rest, first, _, second⟩ := closeParenOk closed
  have between := collapseEmpty (m := ⟨settled.operands, rest⟩) second empty
  exact collapseEmpty first between

theorem stepEmpty (stepped : m.step arithmetic lookup t = .ok next) (empty : next.operands = []) :
    m.operands = [] ∧ t.isValue = false ∧ t.isOperator = false := by
  cases t with
  | number value => exact absurd empty (pushValuePresent stepped)
  | name name =>
    obtain ⟨value, pushed⟩ := stepName stepped
    exact absurd empty (pushValuePresent pushed)
  | operator op => exact absurd empty (pushOperatorPresent stepped)
  | leftParen =>
    cases stepped
    exact ⟨empty, rfl, rfl⟩
  | rightParen => exact ⟨closeParenEmpty stepped empty, rfl, rfl⟩

theorem feedEmpty (fed : m.feed arithmetic lookup tokens = .ok next) (empty : next.operands = []) :
    m.operands = [] ∧ tokens.countP Token.isValue = 0 ∧ tokens.countP Token.isOperator = 0 := by
  induction tokens generalizing m with
  | nil =>
    cases fed
    exact ⟨empty, rfl, rfl⟩
  | cons t rest ih =>
    rw [feedCons] at fed
    obtain ⟨between, stepped, onward⟩ := Outcome.bindOk.1 fed
    obtain ⟨nothing, values, operators⟩ := ih onward
    obtain ⟨before, noValue, noOperator⟩ := stepEmpty stepped nothing
    simp [before, values, operators, noValue, noOperator]

def Supplied (m : Machine) : Prop := m.operands = [] → operators m.pending = 0

theorem feedSupplied (fed : start.feed arithmetic lookup tokens = .ok m) : Supplied m := by
  intro empty
  obtain ⟨before, noValue, noOperator⟩ := feedEmpty fed empty
  have conserved := (feedConserves fed).operands
  have nothing : operators start.pending = 0 := rfl
  rw [empty, before, noValue, noOperator, nothing, List.length_nil] at conserved
  omega

theorem collapseSupplied (supplied : Supplied m)
    (collapsed : m.collapse arithmetic multiplicative = .ok next) : Supplied next := by
  intro empty
  have nothing := collapseEmpty collapsed empty
  have conserved := (collapseConserves collapsed).operands
  rw [empty, nothing, supplied nothing, List.length_nil] at conserved
  omega

theorem suppliedTop (supplied : Supplied m) (top : topOperator? multiplicative m.pending = some (op, rest)) :
    m.operands ≠ [] := by
  intro empty
  have waits := supplied empty
  rw [(topOperatorSome top).1, operatorsOperator] at waits
  cases waits

theorem applyTopError (failed : applyTop arithmetic op operands pending = .error fault) :
    fault = .divideByZero ∨ (fault = .stackUnderflow op.symbol ∧ operands.length < 2) := by
  unfold applyTop at failed
  split at failed
  · obtain applied | ⟨_, _, onward⟩ := Outcome.bindError.1 failed
    · exact .inl (Grammar.applyFault applied)
    · cases onward
  · rename_i few
    cases failed
    refine .inr ⟨rfl, ?_⟩
    cases operands with
    | nil => exact Nat.zero_lt_two
    | cons right others =>
      cases others with
      | nil => exact Nat.one_lt_two
      | cons left rest => exact absurd rfl (few right left rest)

theorem collapseError (failed : m.collapse arithmetic multiplicative = .error fault) :
    fault = .divideByZero ∨ ∃ op rest, topOperator? multiplicative m.pending = some (op, rest) ∧
      fault = .stackUnderflow op.symbol ∧ m.operands.length < 2 := by
  unfold collapse at failed
  split at failed
  · rename_i op rest top
    exact (applyTopError failed).imp_right fun few => ⟨op, rest, top, few⟩
  · cases failed

/- In a push the value itself is one of the two operands. -/
theorem pushValueError (supplied : Supplied m) {value : Binary64}
    (failed : m.pushValue arithmetic value = .error fault) : fault = .divideByZero := by
  rw [pushValueCollapse] at failed
  obtain zero | ⟨op, rest, top, _, few⟩ := collapseError failed
  · exact zero
  · have present := List.length_pos_iff.2 (suppliedTop supplied top)
    simp only [List.length_cons] at few
    omega

inductive Settles (arithmetic : Arithmetic) (m : Machine) : Token → Bool → Machine → Prop where
  | operator {op : Operator} (additive : op.isMultiplicative = false) (present : m.operands ≠ []) :
      Settles arithmetic m (.operator op) false m
  | close : Settles arithmetic m .rightParen false m
  | group {settled : Machine} {rest : List Pending}
      (collapsed : m.collapse arithmetic false = .ok settled) (opened : settled.pending = .leftParen :: rest) :
      Settles arithmetic m .rightParen true ⟨settled.operands, rest⟩

theorem settlesSupplied (supplied : Supplied m) (settles : Settles arithmetic m t multiplicative found) :
    Supplied found := by
  cases settles with
  | operator | close => exact supplied
  | group collapsed opened =>
    intro empty
    have waits := collapseSupplied supplied collapsed empty
    rwa [opened, operatorsLeftParen] at waits

inductive Refuses (arithmetic : Arithmetic) (m : Machine) : Token → EvaluationFault → Prop where
  | undefined (name : String) : Refuses arithmetic m (.name name) (.undefinedVariable name)
  | division (t : Token) : Refuses arithmetic m t .divideByZero
  | mismatched : Refuses arithmetic m .rightParen .mismatchedParenthesis
  | early (op : Operator) (empty : m.operands = []) : Refuses arithmetic m (.operator op) (.stackUnderflow op.symbol)
  | single {t : Token} {multiplicative : Bool} {found : Machine} {op : Operator} {rest : List Pending}
      {operand : Binary64} (settles : Settles arithmetic m t multiplicative found)
      (top : topOperator? multiplicative found.pending = some (op, rest)) (one : found.operands = [operand]) :
      Refuses arithmetic m t (.stackUnderflow op.symbol)

theorem settlesRefuses (supplied : Supplied m) (settles : Settles arithmetic m t multiplicative found)
    (failed : found.collapse arithmetic multiplicative = .error fault) : Refuses arithmetic m t fault := by
  obtain rfl | ⟨op, rest, top, rfl, few⟩ := collapseError failed
  · exact .division t
  · have present := List.length_pos_iff.2 (suppliedTop (settlesSupplied supplied settles) top)
    obtain ⟨operand, one⟩ := List.length_eq_one_iff.1 (show found.operands.length = 1 by omega)
    exact .single settles top one

theorem pushOperatorRefuses (supplied : Supplied m) (failed : m.pushOperator arithmetic op = .error fault) :
    Refuses arithmetic m (.operator op) fault := by
  unfold pushOperator at failed
  split at failed
  · rename_i empty
    cases failed
    exact .early op (List.isEmpty_iff.1 empty)
  · rename_i present
    split at failed
    · cases failed
    · rename_i kind
      have additive := eq_false_of_ne_true kind
      have operand : m.operands ≠ [] := fun empty => present (List.isEmpty_iff.2 empty)
      obtain early | ⟨_, _, onward⟩ := Outcome.bindError.1 failed
      · exact settlesRefuses supplied (.operator additive operand) early
      · cases onward

theorem closeParenRefuses (supplied : Supplied m) (failed : m.closeParen arithmetic = .error fault) :
    Refuses arithmetic m .rightParen fault := by
  obtain early | ⟨settled, collapsed, onward⟩ := Outcome.bindError.1 failed
  · exact settlesRefuses supplied .close early
  · split at onward
    · rename_i rest opened
      exact settlesRefuses supplied (.group collapsed opened) onward
    · cases onward
      exact .mismatched

theorem stepRefuses (supplied : Supplied m) (failed : m.step arithmetic lookup t = .error fault) :
    Refuses arithmetic m t fault := by
  cases t with
  | number value => exact pushValueError supplied failed ▸ .division _
  | name name =>
    rw [step] at failed
    cases bound : lookup name with
    | none =>
      rw [bound] at failed
      cases failed
      exact .undefined name
    | some value =>
      rw [bound] at failed
      exact pushValueError supplied failed ▸ .division _
  | operator op => exact pushOperatorRefuses supplied failed
  | leftParen => cases failed
  | rightParen => exact closeParenRefuses supplied failed

theorem feedError (failed : m.feed arithmetic lookup tokens = .error fault) :
    ∃ front t back reached, tokens = front ++ t :: back ∧ m.feed arithmetic lookup front = .ok reached ∧
      reached.step arithmetic lookup t = .error fault := by
  induction tokens generalizing m with
  | nil => cases failed
  | cons t rest ih =>
    rw [feedCons] at failed
    obtain now | ⟨next, stepped, later⟩ := Outcome.bindError.1 failed
    · exact ⟨[], t, rest, m, rfl, rfl, now⟩
    · obtain ⟨front, u, back, reached, rfl, fed, refused⟩ := ih later
      refine ⟨t :: front, u, back, reached, rfl, ?_, refused⟩
      rw [feedCons, stepped, Outcome.okBind, fed]

theorem finishError (failed : m.finish arithmetic = .error fault) :
    fault = .malformedResult m.operands.length m.pending.length := by
  unfold finish at failed
  split at failed
  · cases failed
  · split at failed
    · exact (Except.error.inj failed).symm
    · rename_i op _ _ _ _ additive
      cases op with
      | add | subtract => cases failed
      | multiply | divide => exact absurd rfl additive
  · exact (Except.error.inj failed).symm

theorem finishOk {value : Binary64} (finished : m.finish arithmetic = .ok value) :
    m.operands.length = operators m.pending + 1 ∧ parens m.pending = 0 := by
  unfold finish at finished
  split at finished
  · rename_i value pending operands
    rw [pending, operands]
    exact ⟨rfl, rfl⟩
  · rename_i op right left pending operands
    rw [pending, operands]
    exact ⟨rfl, rfl⟩
  · cases finished

theorem startConserves (fed : start.feed arithmetic lookup tokens = .ok m) :
    m.operands.length + tokens.countP Token.isOperator = operators m.pending + tokens.countP Token.isValue ∧
      parens m.pending + tokens.count .rightParen = tokens.count .leftParen := by
  obtain ⟨counted, opened⟩ := feedConserves fed
  have noOperand : start.operands.length = 0 := rfl
  have noOperator : operators start.pending = 0 := rfl
  have noParen : parens start.pending = 0 := rfl
  omega

theorem finishDivides : m.finish arithmetic ≠ .error .divideByZero :=
  fun failed => nomatch finishError failed

theorem runMalformed {left waiting : Nat}
    (failed : start.run arithmetic lookup tokens = .error (.malformedResult left waiting)) :
    ∃ m, start.feed arithmetic lookup tokens = .ok m ∧ left = m.operands.length ∧ waiting = m.pending.length := by
  rw [runBind] at failed
  obtain early | ⟨m, fed, late⟩ := Outcome.bindError.1 failed
  · obtain ⟨front, t, back, reached, _, before, refused⟩ := feedError early
    cases stepRefuses (feedSupplied before) refused
  · cases finishError late
    exact ⟨m, fed, rfl, rfl⟩

/- Why an operand is missing: an operator came before every value, or one operand alone was there for an
operation that waited. -/
inductive Lacks (arithmetic : Arithmetic) (front : List Token) (m : Machine) : Token → Char → Prop where
  | early (op : Operator) (noValue : front.countP Token.isValue = 0) :
      Lacks arithmetic front m (.operator op) op.symbol
  | single {t : Token} {multiplicative : Bool} {found : Machine} {op : Operator} {rest : List Pending}
      {operand : Binary64} (settles : Settles arithmetic m t multiplicative found)
      (top : topOperator? multiplicative found.pending = some (op, rest)) (one : found.operands = [operand]) :
      Lacks arithmetic front m t op.symbol

theorem runUnderflow (failed : start.run arithmetic lookup tokens = .error (.stackUnderflow symbol)) :
    ∃ front t back m, tokens = front ++ t :: back ∧ start.feed arithmetic lookup front = .ok m ∧
      m.step arithmetic lookup t = .error (.stackUnderflow symbol) ∧ Lacks arithmetic front m t symbol := by
  rw [runBind] at failed
  obtain early | ⟨m, _, late⟩ := Outcome.bindError.1 failed
  · obtain ⟨front, t, back, m, same, fed, refused⟩ := feedError early
    refine ⟨front, t, back, m, same, fed, refused, ?_⟩
    cases stepRefuses (feedSupplied fed) refused with
    | early op empty => exact .early op (feedEmpty fed empty).2.1
    | single settles top one => exact .single settles top one
  · cases finishError late

end Machine

theorem evaluationBalance (arithmetic : Arithmetic) (lookup : Lookup) (tokens : List Token) :
    (∀ front back m, tokens = front ++ back → Machine.start.feed arithmetic lookup front = .ok m →
      (m.operands.length : Int) - Machine.operators m.pending =
          front.countP Token.isValue - front.countP Token.isOperator ∧
        (Machine.parens m.pending : Int) = front.count .leftParen - front.count .rightParen ∧
        (m.operands = [] → front.countP Token.isValue = 0) ∧
        ∀ value symbol, m.pushValue arithmetic value ≠ .error (.stackUnderflow symbol)) ∧
    (∀ value, Machine.start.run arithmetic lookup tokens = .ok value →
      tokens.countP Token.isValue = tokens.countP Token.isOperator + 1 ∧
        tokens.count .leftParen = tokens.count .rightParen ∧
        ∀ front back, tokens = front ++ back → front.count .rightParen ≤ front.count .leftParen) ∧
    (∀ left waiting, Machine.start.run arithmetic lookup tokens = .error (.malformedResult left waiting) →
      (left : Int) - waiting = tokens.countP Token.isValue - tokens.countP Token.isOperator -
        (tokens.count .leftParen - tokens.count .rightParen)) ∧
    (∀ symbol, Machine.start.run arithmetic lookup tokens = .error (.stackUnderflow symbol) →
      ∃ front t back m, tokens = front ++ t :: back ∧ Machine.start.feed arithmetic lookup front = .ok m ∧
        m.step arithmetic lookup t = .error (.stackUnderflow symbol) ∧
        Machine.Lacks arithmetic front m t symbol) ∧
    ∀ m : Machine, m.finish arithmetic ≠ .error .divideByZero := by
  refine ⟨fun front back m parts fed => ?_, fun value ran => ?_, fun left waiting failed => ?_,
    fun symbol => Machine.runUnderflow, fun m => Machine.finishDivides⟩
  · obtain ⟨counted, opened⟩ := Machine.startConserves fed
    refine ⟨by omega, by omega, fun empty => (Machine.feedEmpty fed empty).2.1, fun value symbol failed => ?_⟩
    cases Machine.pushValueError (Machine.feedSupplied fed) failed
  · rw [Machine.runBind] at ran
    obtain ⟨last, fed, finished⟩ := Outcome.bindOk.1 ran
    obtain ⟨counted, opened⟩ := Machine.startConserves fed
    obtain ⟨one, none⟩ := Machine.finishOk finished
    refine ⟨by omega, by omega, fun front back parts => ?_⟩
    rw [parts, Machine.feedAppend] at fed
    obtain ⟨between, before, _⟩ := Outcome.bindOk.1 fed
    have openedBefore := (Machine.startConserves before).2
    omega
  · obtain ⟨m, fed, rfl, rfl⟩ := Machine.runMalformed failed
    obtain ⟨counted, opened⟩ := Machine.startConserves fed
    have whole := Machine.countsLength m.pending
    omega

theorem closedSumLacks :
    Machine.start.run .standard (fun _ => none) [.number ⟨0⟩, .operator .add, .rightParen] =
      .error (.stackUnderflow '+') ∧
    ∃ front t back m, [.number ⟨0⟩, .operator .add, .rightParen] = front ++ t :: back ∧
      Machine.start.feed .standard (fun _ => none) front = .ok m ∧
      m.step .standard (fun _ => none) t = .error (.stackUnderflow '+') ∧
      Machine.Lacks .standard front m t '+' :=
  ⟨rfl, (evaluationBalance .standard _ _).2.2.2.1 '+' rfl⟩

end ArithmeticFormula
