import ArithmeticFormula.Proofs.Machine.Carries

/-! What the machine conserves on any token list. A step that carries an operation out takes one operator and
one operand away, so operands less operators go up by one for each value and down by one for each operator
that was fed, and the parentheses that wait are those that were fed open and not yet closed. -/
namespace ArithmeticFormula

def Token.isValue : Token → Bool
  | number _ | name _ => true
  | operator _ | leftParen | rightParen => false

def Token.isOperator : Token → Bool
  | operator _ => true
  | number _ | name _ | leftParen | rightParen => false

def Pending.isOperator : Pending → Bool
  | operator _ => true
  | leftParen => false

namespace Machine

def operators (pending : List Pending) : Nat := pending.countP Pending.isOperator

def parens (pending : List Pending) : Nat := pending.count .leftParen

variable {arithmetic : Arithmetic} {lookup : Lookup} {m next : Machine} {t : Token} {tokens : List Token}
variable {op : Operator} {operands : List Binary64} {pending rest : List Pending} {multiplicative : Bool}

@[simp] theorem operatorsOperator : operators (.operator op :: pending) = operators pending + 1 :=
  List.countP_cons_of_pos rfl

@[simp] theorem operatorsLeftParen : operators (.leftParen :: pending) = operators pending :=
  List.countP_cons_of_neg Bool.false_ne_true

@[simp] theorem parensOperator : parens (.operator op :: pending) = parens pending := by
  simp [parens]

@[simp] theorem parensLeftParen : parens (.leftParen :: pending) = parens pending + 1 := by
  simp [parens]

theorem operatorsAppend : operators (pending ++ rest) = operators pending + operators rest :=
  List.countP_append

theorem parensAppend : parens (pending ++ rest) = parens pending + parens rest := List.count_append

theorem countsLength (pending : List Pending) : operators pending + parens pending = pending.length := by
  induction pending with
  | nil => rfl
  | cons waits rest ih =>
    cases waits with
    | operator op => rw [operatorsOperator, parensOperator, List.length_cons, ← ih]; omega
    | leftParen => rw [operatorsLeftParen, parensLeftParen, List.length_cons, ← ih]; omega

theorem topOperatorSome (top : topOperator? multiplicative pending = some (op, rest)) :
    pending = .operator op :: rest ∧ op.isMultiplicative = multiplicative := by
  unfold topOperator? at top
  split at top
  · split at top
    · rename_i kind
      cases top
      exact ⟨rfl, kind⟩
    · cases top
  · cases top

theorem applyTopOk (applied : applyTop arithmetic op operands pending = .ok next) :
    next.pending = pending ∧ next.operands.length + 1 = operands.length := by
  unfold applyTop at applied
  split at applied
  · obtain ⟨value, _, same⟩ := Outcome.bindOk.1 applied
    cases same
    exact ⟨rfl, rfl⟩
  · cases applied

/- What one step may change: operands and operators go by each other, up to what was fed. -/
structure Conserves (m next : Machine) (values ops opens closes : Nat) : Prop where
  operands : next.operands.length + operators m.pending + ops =
    m.operands.length + operators next.pending + values
  parens : parens next.pending + closes = parens m.pending + opens

theorem collapseConserves (collapsed : m.collapse arithmetic multiplicative = .ok next) :
    Conserves m next 0 0 0 0 := by
  unfold collapse at collapsed
  split at collapsed
  · rename_i op rest top
    obtain ⟨waits, _⟩ := topOperatorSome top
    obtain ⟨left, fewer⟩ := applyTopOk collapsed
    constructor
    · rw [waits, left, operatorsOperator]
      omega
    · rw [waits, left, parensOperator]
  · cases collapsed
    exact ⟨rfl, rfl⟩

theorem pushValueCollapse (m : Machine) (value : Binary64) :
    m.pushValue arithmetic value = collapse arithmetic true ⟨value :: m.operands, m.pending⟩ := rfl

theorem pushValueConserves {value : Binary64} (pushed : m.pushValue arithmetic value = .ok next) :
    Conserves m next 1 0 0 0 := by
  rw [pushValueCollapse] at pushed
  obtain ⟨counted, opened⟩ := collapseConserves pushed
  simp only [List.length_cons] at counted
  exact ⟨by omega, opened⟩

theorem pushOperatorOk (pushed : m.pushOperator arithmetic op = .ok next) :
    (op.isMultiplicative = true ∧ next = ⟨m.operands, .operator op :: m.pending⟩) ∨
      op.isMultiplicative = false ∧ ∃ settled, m.collapse arithmetic false = .ok settled ∧
        next = ⟨settled.operands, .operator op :: settled.pending⟩ := by
  unfold pushOperator at pushed
  split at pushed
  · cases pushed
  · split at pushed
    · rename_i kind
      exact .inl ⟨kind, (Except.ok.inj pushed).symm⟩
    · rename_i kind
      obtain ⟨settled, collapsed, same⟩ := Outcome.bindOk.1 pushed
      exact .inr ⟨eq_false_of_ne_true kind, settled, collapsed, (Except.ok.inj same).symm⟩

theorem pushOperatorConserves (pushed : m.pushOperator arithmetic op = .ok next) :
    Conserves m next 0 1 0 0 := by
  obtain ⟨_, rfl⟩ | ⟨_, settled, collapsed, rfl⟩ := pushOperatorOk pushed
  · constructor
    · simp only [operatorsOperator]
      omega
    · rw [parensOperator]
  · obtain ⟨counted, opened⟩ := collapseConserves collapsed
    constructor
    · simp only [operatorsOperator]
      omega
    · rw [parensOperator, opened]

theorem closeParenOk (closed : m.closeParen arithmetic = .ok next) :
    ∃ settled rest, m.collapse arithmetic false = .ok settled ∧ settled.pending = .leftParen :: rest ∧
      collapse arithmetic true ⟨settled.operands, rest⟩ = .ok next := by
  obtain ⟨settled, collapsed, onward⟩ := Outcome.bindOk.1 closed
  split at onward
  · rename_i rest waits
    exact ⟨settled, rest, collapsed, waits, onward⟩
  · cases onward

theorem closeParenConserves (closed : m.closeParen arithmetic = .ok next) :
    Conserves m next 0 0 0 1 := by
  obtain ⟨settled, rest, first, waits, second⟩ := closeParenOk closed
  obtain ⟨counted, opened⟩ := collapseConserves first
  obtain ⟨countedAfter, openedAfter⟩ := collapseConserves second
  rw [waits, operatorsLeftParen] at counted
  rw [waits, parensLeftParen] at opened
  dsimp only at countedAfter openedAfter
  constructor <;> omega

theorem stepName {name : String} (stepped : m.step arithmetic lookup (.name name) = .ok next) :
    ∃ value, m.pushValue arithmetic value = .ok next := by
  rw [step] at stepped
  cases found : lookup name with
  | none =>
    rw [found] at stepped
    cases stepped
  | some value =>
    rw [found] at stepped
    exact ⟨value, stepped⟩

theorem stepConserves (stepped : m.step arithmetic lookup t = .ok next) :
    Conserves m next ([t].countP Token.isValue) ([t].countP Token.isOperator) ([t].count .leftParen)
      ([t].count .rightParen) := by
  cases t with
  | number value => exact pushValueConserves stepped
  | name name =>
    obtain ⟨value, pushed⟩ := stepName stepped
    exact pushValueConserves pushed
  | operator op => exact pushOperatorConserves stepped
  | leftParen =>
    cases stepped
    exact ⟨by simp [Token.isValue, Token.isOperator], by simp⟩
  | rightParen => exact closeParenConserves stepped

theorem feedConserves (fed : m.feed arithmetic lookup tokens = .ok next) :
    Conserves m next (tokens.countP Token.isValue) (tokens.countP Token.isOperator)
      (tokens.count .leftParen) (tokens.count .rightParen) := by
  induction tokens generalizing m with
  | nil =>
    cases fed
    exact ⟨rfl, rfl⟩
  | cons t rest ih =>
    rw [feedCons] at fed
    obtain ⟨between, stepped, onward⟩ := Outcome.bindOk.1 fed
    obtain ⟨counted, opened⟩ := stepConserves stepped
    obtain ⟨countedLater, openedLater⟩ := ih onward
    rw [← List.singleton_append]
    simp only [List.countP_append, List.count_append]
    constructor <;> omega

end Machine
end ArithmeticFormula
