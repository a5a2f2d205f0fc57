import ArithmeticFormula.Proofs.Formula.Canonical
import ArithmeticFormula.Proofs.Machine.Conserved

/-! What waits while a built formula is evaluated. Each open parenthesis and the outermost level hold at most
one addition or subtraction and on it at most one multiplication or division; an operand more than the
waiting operators is there exactly where an operand has just ended, and then no multiplication waits on top.
So both stacks are bounded by the depth of the nesting alone. -/
namespace ArithmeticFormula

namespace Machine

structure Level where
  additive : Option {op : Operator // op.isMultiplicative = false}
  multiplicative : Option {op : Operator // op.isMultiplicative = true}

def Level.empty : Level := ⟨none, none⟩

def Level.pending (level : Level) : List Pending :=
  (level.multiplicative.map fun op => Pending.operator op.val).toList ++
    (level.additive.map fun op => Pending.operator op.val).toList

/- The innermost level is on top, and a parenthesis parts it from the next. -/
def waiting (top : Level) (outer : List Level) : List Pending :=
  top.pending ++ outer.flatMap fun level => .leftParen :: level.pending

variable {arithmetic : Arithmetic} {lookup : Lookup} {m next : Machine} {t : Token}
variable {top : Level} {outer : List Level} {pending rest : List Pending} {op : Operator}
variable {expected : Expected} {depth : Nat} {front back : List Token}

theorem waitingClosed (waits : waiting .empty outer = .leftParen :: rest) :
    ∃ level others, outer = level :: others ∧ rest = waiting level others := by
  cases outer with
  | nil => cases waits
  | cons level others =>
    cases waits
    exact ⟨level, others, rfl, rfl⟩

theorem topMultiplicative (waits : pending = waiting top outer) :
    (top.multiplicative = none ∧ topOperator? true pending = none) ∨
      ∃ op, topOperator? true pending = some (op, waiting ⟨top.additive, none⟩ outer) := by
  obtain ⟨additive, multiplicative⟩ := top
  subst waits
  cases multiplicative with
  | some op => exact .inr ⟨op, if_pos op.property⟩
  | none =>
    refine .inl ⟨rfl, ?_⟩
    cases additive with
    | some op => exact if_neg (by simp [op.property])
    | none => cases outer <;> rfl

theorem topAdditive (waits : pending = waiting top outer) (settled : top.multiplicative = none) :
    (top = .empty ∧ topOperator? false pending = none) ∨
      ∃ op, topOperator? false pending = some (op, waiting .empty outer) := by
  obtain ⟨additive, _⟩ := top
  subst waits settled
  cases additive with
  | some op => exact .inr ⟨op, if_pos op.property⟩
  | none =>
    refine .inl ⟨rfl, ?_⟩
    cases outer <;> rfl

theorem collapseMultiplicative (waits : m.pending = waiting top outer)
    (collapsed : m.collapse arithmetic true = .ok next) :
    next.pending = waiting ⟨top.additive, none⟩ outer := by
  obtain ⟨settled, free⟩ | ⟨op, found⟩ := topMultiplicative waits
  · simp only [collapse, free] at collapsed
    cases collapsed
    rw [waits, ← settled]
  · simp only [collapse, found] at collapsed
    exact (applyTopOk collapsed).1

theorem collapseAdditive (waits : m.pending = waiting top outer) (settled : top.multiplicative = none)
    (collapsed : m.collapse arithmetic false = .ok next) : next.pending = waiting .empty outer := by
  obtain ⟨empty, free⟩ | ⟨op, found⟩ := topAdditive waits settled
  · simp only [collapse, free] at collapsed
    cases collapsed
    rw [waits, empty]
  · simp only [collapse, found] at collapsed
    exact (applyTopOk collapsed).1

theorem pushValueLevels {value : Binary64} (waits : m.pending = waiting top outer)
    (pushed : m.pushValue arithmetic value = .ok next) :
    next.pending = waiting ⟨top.additive, none⟩ outer := by
  rw [pushValueCollapse] at pushed
  exact collapseMultiplicative (m := ⟨value :: m.operands, m.pending⟩) waits pushed

theorem pushOperatorLevels (waits : m.pending = waiting top outer) (settled : top.multiplicative = none)
    (pushed : m.pushOperator arithmetic op = .ok next) : ∃ level, next.pending = waiting level outer := by
  obtain ⟨additive, _⟩ := top
  subst settled
  obtain ⟨kind, rfl⟩ | ⟨kind, between, collapsed, rfl⟩ := pushOperatorOk pushed
  · exact ⟨⟨additive, some ⟨op, kind⟩⟩, congrArg (List.cons (.operator op)) waits⟩
  · exact ⟨⟨some ⟨op, kind⟩, none⟩, congrArg (List.cons (.operator op)) (collapseAdditive waits rfl collapsed)⟩

theorem closeParenLevels (waits : m.pending = waiting top outer) (settled : top.multiplicative = none)
    (closed : m.closeParen arithmetic = .ok next) :
    ∃ additive others, next.pending = waiting ⟨additive, none⟩ others := by
  obtain ⟨between, rest, first, opened, second⟩ := closeParenOk closed
  obtain ⟨level, others, _, inside⟩ := waitingClosed ((collapseAdditive waits settled first).symm.trans opened)
  exact ⟨level.additive, others, collapseMultiplicative inside second⟩

structure Layered (expected : Expected) (m : Machine) : Prop where
  levels : ∃ top outer, m.pending = waiting top outer ∧
    (expected = .operatorOrClose → top.multiplicative = none)
  operands : m.operands.length = operators m.pending + if expected = .operatorOrClose then 1 else 0

theorem startLayered : Layered .operand .start := ⟨⟨.empty, [], rfl, nofun⟩, rfl⟩

theorem meetsCounts (meets : t.kind.meets expected = true) :
    [t].countP Token.isValue + (if expected = .operatorOrClose then 1 else 0) =
      [t].countP Token.isOperator + if t.kind.expectedNext = .operatorOrClose then 1 else 0 := by
  cases t <;> cases expected <;> first | rfl | cases meets

theorem stepLevels (meets : t.kind.meets expected = true) (waits : m.pending = waiting top outer)
    (settled : expected = .operatorOrClose → top.multiplicative = none)
    (stepped : m.step arithmetic lookup t = .ok next) :
    ∃ top outer, next.pending = waiting top outer ∧
      (t.kind.expectedNext = .operatorOrClose → top.multiplicative = none) := by
  cases t with
  | number value => exact ⟨_, outer, pushValueLevels waits stepped, fun _ => rfl⟩
  | name name =>
    obtain ⟨value, pushed⟩ := stepName stepped
    exact ⟨_, outer, pushValueLevels waits pushed, fun _ => rfl⟩
  | operator op =>
    cases expected with
    | operand => cases meets
    | operatorOrClose =>
      obtain ⟨level, pushed⟩ := pushOperatorLevels waits (settled rfl) stepped
      exact ⟨level, outer, pushed, nofun⟩
  | leftParen =>
    cases stepped
    exact ⟨.empty, top :: outer, congrArg (List.cons .leftParen) waits, nofun⟩
  | rightParen =>
    cases expected with
    | operand => cases meets
    | operatorOrClose =>
      obtain ⟨additive, others, closed⟩ := closeParenLevels waits (settled rfl) stepped
      exact ⟨_, others, closed, fun _ => rfl⟩

theorem stepLayered (meets : t.kind.meets expected = true) (layered : Layered expected m)
    (stepped : m.step arithmetic lookup t = .ok next) : Layered t.kind.expectedNext next := by
  obtain ⟨⟨top, outer, waits, settled⟩, balance⟩ := layered
  have conserved := (stepConserves stepped).operands
  have counts := meetsCounts meets
  exact ⟨stepLevels meets waits settled stepped, by omega⟩

def expectedAfter (expected : Expected) (front : List Token) : Expected :=
  front.getLast?.elim expected fun t => t.kind.expectedNext

theorem expectedAfterCons : expectedAfter expected (t :: front) =
    expectedAfter t.kind.expectedNext front := by
  cases front with
  | nil => rfl
  | cons u rest => rw [expectedAfter, List.getLast?_cons_cons]; rfl

theorem expectedAfterStart : expectedAfter .operand front = .operatorOrClose ↔
    (front.getLast?.any fun t => t.kind.endsOperand) = true := by
  unfold expectedAfter
  cases front.getLast? with
  | none => simp
  | some t => simp [Kind.expectedNext]

theorem fitsToken (fits : Grammar.Fits Grammar.tokens expected depth (t :: back)) :
    t.kind.meets expected = true ∧
      ∃ depth, Grammar.Fits Grammar.tokens t.kind.expectedNext depth back := by
  cases fits <;> exact ⟨rfl, _, ‹_›⟩

theorem feedLayered (fits : Grammar.Fits Grammar.tokens expected depth (front ++ back))
    (layered : Layered expected m) (fed : m.feed arithmetic lookup front = .ok next) :
    Layered (expectedAfter expected front) next := by
  induction front generalizing expected depth m with
  | nil =>
    cases fed
    exact layered
  | cons t rest ih =>
    obtain ⟨meets, _, restFits⟩ := fitsToken fits
    rw [feedCons] at fed
    obtain ⟨between, stepped, onward⟩ := Outcome.bindOk.1 fed
    rw [expectedAfterCons]
    exact ih restFits (stepLayered meets layered stepped) onward

theorem levelCounts (level : Level) : parens level.pending = 0 ∧ operators level.pending ≤ 2 ∧
    (level.multiplicative = none → operators level.pending ≤ 1) := by
  obtain ⟨additive, multiplicative⟩ := level
  cases additive <;> cases multiplicative <;>
    simp [Level.pending, parens, operators, Pending.isOperator, List.countP_cons]

theorem waitingCounts (top : Level) (outer : List Level) : parens (waiting top outer) = outer.length ∧
    operators (waiting top outer) ≤ operators top.pending + 2 * outer.length := by
  induction outer generalizing top with
  | nil => simp [waiting, (levelCounts top).1]
  | cons level others ih =>
    have onTop : waiting top (level :: others) = top.pending ++ .leftParen :: waiting level others := rfl
    obtain ⟨noParens, _, _⟩ := levelCounts top
    obtain ⟨_, two, _⟩ := levelCounts level
    obtain ⟨counted, bounded⟩ := ih level
    rw [onTop, parensAppend, operatorsAppend, parensLeftParen, operatorsLeftParen, List.length_cons]
    omega

theorem levelsBound (waits : m.pending = waiting top outer)
    (settled : expected = .operatorOrClose → top.multiplicative = none)
    (balance : m.operands.length = operators m.pending + if expected = .operatorOrClose then 1 else 0) :
    m.operands.length ≤ 2 * (outer.length + 1) ∧ m.pending.length ≤ 3 * outer.length + 2 := by
  obtain ⟨counted, bounded⟩ := waitingCounts top outer
  obtain ⟨_, two, one⟩ := levelCounts top
  have whole := countsLength m.pending
  rw [waits] at balance whole ⊢
  split at balance
  · have settledTop := one (settled ‹_›)
    omega
  · omega

end Machine

variable {naming : Naming} {f : Formula} {text : String} {arithmetic : Arithmetic} {lookup : Lookup}
variable {front back : List Token} {m : Machine}

theorem evaluationLevels (built : Formula.ofTextWith naming text = .ok f) (parts : f.tokens = front ++ back)
    (fed : Machine.start.feed arithmetic lookup front = .ok m) :
    ∃ top outer, m.pending = Machine.waiting top outer ∧
      front.count .rightParen + outer.length = front.count .leftParen ∧
      m.operands.length = Machine.operators m.pending +
        (if front.getLast?.any fun t => t.kind.endsOperand then 1 else 0) ∧
      ((front.getLast?.any fun t => t.kind.endsOperand) = true → top.multiplicative = none) ∧
      m.operands.length ≤ 2 * (outer.length + 1) ∧ m.pending.length ≤ 3 * outer.length + 2 := by
  have fits := parts ▸ (builtOfText built).fits
  obtain ⟨⟨top, outer, waits, settled⟩, balance⟩ := Machine.feedLayered fits Machine.startLayered fed
  obtain ⟨fewOperands, fewPending⟩ := Machine.levelsBound waits settled balance
  have opened := (Machine.feedConserves fed).parens
  have nothing : Machine.parens Machine.start.pending = 0 := rfl
  rw [waits, (Machine.waitingCounts top outer).1] at opened
  simp only [Machine.expectedAfterStart] at settled balance
  exact ⟨top, outer, waits, by omega, balance, settled, fewOperands, fewPending⟩

theorem quotientLevels : ∃ f m, Formula.ofTextWith (.ofRules .upper .all) "x / (1.50 - y)" = .ok f ∧
    Machine.start.feed .standard (fun _ => some ⟨0⟩) (f.tokens.take 5) = .ok m ∧
      ∃ top outer, m.pending = Machine.waiting top outer ∧ outer.length = 1 ∧ m.operands.length = 2 ∧
        m.pending.length = 3 := by
  let front : List Token := [.name "X", .operator .divide, .leftParen, .number ⟨0x3FF8000000000000⟩,
    .operator .subtract]
  let lookup : Lookup := fun _ => some ⟨0⟩
  have fed : Machine.start.feed .standard lookup front =
      .ok ⟨[⟨0x3FF8000000000000⟩, ⟨0⟩], [.operator .subtract, .leftParen, .operator .divide]⟩ := rfl
  obtain ⟨top, outer, waits, opened, _⟩ := evaluationLevels quotientBuilds (List.take_append_drop 5 _).symm fed
  exact ⟨_, _, quotientBuilds, fed, top, outer, waits, Nat.add_left_cancel opened, rfl, rfl⟩

end ArithmeticFormula
