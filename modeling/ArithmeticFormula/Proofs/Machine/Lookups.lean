import ArithmeticFormula.Proofs.Machine.Carries

/-! What the machine asks a lookup for. It looks up a name when it comes to it and nothing else; a name is
undefined only if it was looked up in vain. So two runs go the same way up to the first name on which their
lookups differ, a run to the end has found every name, and other names for the variables are other names in
the fault and no more. -/
namespace ArithmeticFormula

def Token.renamed (rename : String → String) : Token → Token
  | name text => .name (rename text)
  | t => t

def EvaluationFault.renamed (rename : String → String) : EvaluationFault → EvaluationFault
  | undefinedVariable name => .undefinedVariable (rename name)
  | fault => fault

def Lookup.Within (lookup wider : Lookup) : Prop :=
  ∀ name value, lookup name = some value → wider name = some value

namespace Machine

variable {arithmetic : Arithmetic} {lookup other wider : Lookup} {m reached : Machine}
variable {t : Token} {tokens front : List Token} {name : String} {rename : String → String} {α β : Type}

def Steady (outcome : Except EvaluationFault α) : Prop :=
  ∀ name, outcome ≠ .error (.undefinedVariable name)

theorem steadyOk (value : α) : Steady (.ok value) := fun _ failed => nomatch failed

theorem steadyBind {outcome : Except EvaluationFault α} {next : α → Except EvaluationFault β}
    (first : Steady outcome) (later : ∀ value, Steady (next value)) : Steady (outcome >>= next) := by
  intro name failed
  obtain early | ⟨value, _, late⟩ := Outcome.bindError.1 failed
  · exact first name early
  · exact later value name late

theorem steadyRenamed {outcome : Except EvaluationFault α} (steady : Steady outcome) :
    outcome.mapError (·.renamed rename) = outcome := by
  cases outcome with
  | ok value => rfl
  | error fault =>
    cases fault with
    | undefinedVariable name => exact absurd rfl (steady name)
    | divideByZero | stackUnderflow | mismatchedParenthesis | malformedResult => rfl

theorem applySteady (op : Operator) (left right : Binary64) :
    Steady (arithmetic.apply op left right) := by
  intro name failed
  cases Grammar.applyFault failed

theorem applyTopSteady (op : Operator) (operands : List Binary64) (pending : List Pending) :
    Steady (applyTop arithmetic op operands pending) := by
  unfold applyTop
  split
  · exact steadyBind (applySteady _ _ _) fun _ => steadyOk _
  · exact fun _ failed => nomatch failed

theorem pushValueSteady (value : Binary64) : Steady (m.pushValue arithmetic value) := by
  unfold pushValue
  split
  · exact applyTopSteady _ _ _
  · exact steadyOk _

theorem collapseSteady (multiplicative : Bool) : Steady (m.collapse arithmetic multiplicative) := by
  unfold collapse
  split
  · exact applyTopSteady _ _ _
  · exact steadyOk _

theorem pushOperatorSteady (op : Operator) : Steady (m.pushOperator arithmetic op) := by
  unfold pushOperator
  split
  · exact fun _ failed => nomatch failed
  · split
    · exact steadyOk _
    · exact steadyBind (collapseSteady _) fun _ => steadyOk _

theorem closeParenSteady : Steady (m.closeParen arithmetic) := by
  refine steadyBind (collapseSteady _) fun next => ?_
  split
  · exact collapseSteady _
  · exact fun _ failed => nomatch failed

theorem finishSteady : Steady (m.finish arithmetic) := by
  unfold finish
  split
  · exact steadyOk _
  · split
    · exact fun _ failed => nomatch failed
    · exact applySteady _ _ _
  · exact fun _ failed => nomatch failed

theorem stepMissing (missing : lookup name = none) :
    m.step arithmetic lookup (.name name) = .error (.undefinedVariable name) := by
  rw [step, missing, Option.elim_none]

theorem stepUndefined (failed : m.step arithmetic lookup t = .error (.undefinedVariable name)) :
    t = .name name ∧ lookup name = none := by
  cases t with
  | number value => exact absurd failed (pushValueSteady value name)
  | name text =>
    rw [step] at failed
    cases found : lookup text with
    | none =>
      rw [found] at failed
      cases failed
      exact ⟨rfl, found⟩
    | some value =>
      rw [found] at failed
      exact absurd failed (pushValueSteady value name)
  | operator op => exact absurd failed (pushOperatorSteady op name)
  | leftParen => cases failed
  | rightParen => exact absurd failed (closeParenSteady name)

theorem stepSameOrDiffers (arithmetic : Arithmetic) (lookup other : Lookup) (m : Machine) (t : Token) :
    m.step arithmetic lookup t = m.step arithmetic other t ∨
      ∃ name, t = .name name ∧ lookup name ≠ other name := by
  cases t with
  | name text =>
    by_cases same : lookup text = other text
    · exact .inl (by rw [step, step, same])
    · exact .inr ⟨text, rfl, same⟩
  | number | operator | leftParen | rightParen => exact .inl rfl

theorem stepRenamed : m.step arithmetic lookup (t.renamed rename) =
    (m.step arithmetic (fun name => lookup (rename name)) t).mapError (·.renamed rename) := by
  cases t with
  | number value => exact (steadyRenamed (pushValueSteady value)).symm
  | name text =>
    rw [Token.renamed, step, step]
    cases lookup (rename text) with
    | none => rfl
    | some value => exact (steadyRenamed (pushValueSteady value)).symm
  | operator op => exact (steadyRenamed (pushOperatorSteady op)).symm
  | leftParen => rfl
  | rightParen => exact (steadyRenamed closeParenSteady).symm

theorem feedUndefined (failed : m.feed arithmetic lookup tokens = .error (.undefinedVariable name)) :
    .name name ∈ tokens ∧ lookup name = none := by
  induction tokens generalizing m with
  | nil => cases failed
  | cons t rest ih =>
    rw [feedCons] at failed
    obtain now | ⟨next, _, later⟩ := Outcome.bindError.1 failed
    · obtain ⟨rfl, missing⟩ := stepUndefined now
      exact ⟨List.mem_cons_self, missing⟩
    · obtain ⟨member, missing⟩ := ih later
      exact ⟨List.mem_cons_of_mem _ member, missing⟩

theorem feedFinds (fed : m.feed arithmetic lookup tokens = .ok reached) (member : .name name ∈ tokens) :
    ∃ value, lookup name = some value := by
  obtain ⟨front, back, rfl⟩ := List.append_of_mem member
  rw [feedAppend] at fed
  obtain ⟨next, _, onward⟩ := Outcome.bindOk.1 fed
  rw [feedCons] at onward
  cases found : lookup name with
  | none =>
    rw [stepMissing found] at onward
    cases onward
  | some value => exact ⟨value, rfl⟩

/- Two runs go the same way up to the first name on which their lookups differ. -/
theorem feedSameOrDiffers (arithmetic : Arithmetic) (lookup other : Lookup) (m : Machine)
    (tokens : List Token) :
    m.feed arithmetic lookup tokens = m.feed arithmetic other tokens ∨
      ∃ front name back reached, tokens = front ++ .name name :: back ∧
        m.feed arithmetic lookup front = .ok reached ∧ lookup name ≠ other name := by
  induction tokens generalizing m with
  | nil => exact .inl rfl
  | cons t rest ih =>
    obtain same | ⟨name, rfl, apart⟩ := stepSameOrDiffers arithmetic lookup other m t
    · rw [feedCons, feedCons, ← same]
      cases stepped : m.step arithmetic lookup t with
      | error fault => exact .inl rfl
      | ok next =>
        obtain onward | ⟨front, name, back, reached, rfl, fed, apart⟩ := ih next
        · exact .inl onward
        · refine .inr ⟨t :: front, name, back, reached, rfl, ?_, apart⟩
          rw [feedCons, stepped, Outcome.okBind, fed]
    · exact .inr ⟨[], name, rest, m, rfl, rfl, apart⟩

theorem feedRenamed : m.feed arithmetic lookup (tokens.map (·.renamed rename)) =
    (m.feed arithmetic (fun name => lookup (rename name)) tokens).mapError (·.renamed rename) := by
  induction tokens generalizing m with
  | nil => rfl
  | cons t rest ih =>
    rw [List.map_cons, feedCons, feedCons, stepRenamed]
    cases m.step arithmetic (fun name => lookup (rename name)) t with
    | error fault => rfl
    | ok next => exact ih

theorem runBind : m.run arithmetic lookup tokens =
    (m.feed arithmetic lookup tokens >>= fun last => last.finish arithmetic) := by
  rw [run]
  cases m.feed arithmetic lookup tokens <;> rfl

theorem runUndefined (failed : m.run arithmetic lookup tokens = .error (.undefinedVariable name)) :
    .name name ∈ tokens ∧ lookup name = none := by
  rw [runBind] at failed
  obtain early | ⟨last, _, late⟩ := Outcome.bindError.1 failed
  · exact feedUndefined early
  · exact absurd late (finishSteady name)

theorem runFinds {value : Binary64} (ran : m.run arithmetic lookup tokens = .ok value)
    (member : .name name ∈ tokens) : ∃ value, lookup name = some value := by
  rw [runBind] at ran
  obtain ⟨last, fed, _⟩ := Outcome.bindOk.1 ran
  exact feedFinds fed member

theorem runMissing (fed : m.feed arithmetic lookup front = .ok reached) (missing : lookup name = none)
    (back : List Token) :
    m.run arithmetic lookup (front ++ .name name :: back) = .error (.undefinedVariable name) := by
  rw [runBind, feedAppend, fed, Outcome.okBind, feedCons, stepMissing missing]
  rfl

theorem runSameOrDiffers (arithmetic : Arithmetic) (lookup other : Lookup) (m : Machine)
    (tokens : List Token) :
    m.run arithmetic lookup tokens = m.run arithmetic other tokens ∨
      ∃ front name back reached, tokens = front ++ .name name :: back ∧
        m.feed arithmetic lookup front = .ok reached ∧ lookup name ≠ other name := by
  obtain same | differs := feedSameOrDiffers arithmetic lookup other m tokens
  · exact .inl (by rw [run, run, same])
  · exact .inr differs

theorem runAgrees (agree : ∀ name, .name name ∈ tokens → lookup name = other name) :
    m.run arithmetic lookup tokens = m.run arithmetic other tokens := by
  obtain same | ⟨front, name, back, _, rfl, _, apart⟩ := runSameOrDiffers arithmetic lookup other m tokens
  · exact same
  · exact absurd (agree name (List.mem_append_right _ List.mem_cons_self)) apart

theorem runWider (within : lookup.Within wider) :
    m.run arithmetic lookup tokens = m.run arithmetic wider tokens ∨
      ∃ name, m.run arithmetic lookup tokens = .error (.undefinedVariable name) ∧ wider name ≠ none := by
  obtain same | ⟨front, name, back, reached, rfl, fed, apart⟩ :=
    runSameOrDiffers arithmetic lookup wider m tokens
  · exact .inl same
  · cases found : lookup name with
    | some value =>
      rw [found, within name value found] at apart
      exact absurd rfl apart
    | none =>
      rw [found] at apart
      exact .inr ⟨name, runMissing fed found back, apart.symm⟩

theorem runRenamed : m.run arithmetic lookup (tokens.map (·.renamed rename)) =
    (m.run arithmetic (fun name => lookup (rename name)) tokens).mapError (·.renamed rename) := by
  rw [runBind, runBind, feedRenamed]
  cases m.feed arithmetic (fun name => lookup (rename name)) tokens with
  | error fault => rfl
  | ok last => exact (steadyRenamed finishSteady).symm

end Machine
end ArithmeticFormula
