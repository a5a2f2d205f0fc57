import ArithmeticFormula.Machine
import ArithmeticFormula.Proofs.Formula.Canonical
import ArithmeticFormula.Proofs.Machine.Carries
import ArithmeticFormula.Proofs.Machine.Lookups

/-! The value of a built formula and what it depends on. Under any arithmetic the two stacks come to what the
grammar's own evaluation comes to, value or fault, and their own faults never arise. The variables are the names
that evaluation may look up, and all of them are looked up on the way to a value. Main statements: the value is
that of the expression; lookups that agree on the variables give the same answer, a value stands for bound
variables and a missing one is one of them, and a wider lookup changes no answer but that of a name it has
found. -/
namespace ArithmeticFormula

variable {naming : Naming} {f : Formula} {text : String} {arithmetic : Arithmetic} {lookup : Lookup}
variable {fault : EvaluationFault}

theorem zeroIff (x : Binary64) : Arithmetic.standard.isZero x = true ↔
    x = ⟨0⟩ ∨ x = ⟨0x8000000000000000⟩ := by
  obtain ⟨bits⟩ := x
  have below := bits.toNat_lt
  have zero : bits = 0 ↔ bits.toNat = 0 := UInt64.toNat_inj.symm
  have minusZero : bits = 0x8000000000000000 ↔ bits.toNat = 2 ^ 63 := UInt64.toNat_inj.symm
  simp only [Arithmetic.standard, Binary64.isZero, Binary64.signBit, powTwo, beq_iff_eq,
    Binary64.mk.injEq, zero, minusZero]
  omega

theorem evaluateWritten {e : Grammar.Expression Binary64} (written : e.write Grammar.tokens = f.tokens) :
    f.evaluateWith arithmetic lookup = e.evaluate arithmetic lookup := by
  rw [Formula.evaluateWith, ← written]
  exact e.run

theorem evaluateFault (built : f.Built naming) (failed : f.evaluateWith arithmetic lookup = .error fault) :
    fault = .divideByZero ∨ ∃ name ∈ f.names, lookup name = none ∧ fault = .undefinedVariable name := by
  obtain ⟨e, written⟩ := Grammar.derivesIffFits.2 built.fits
  rw [evaluateWritten written] at failed
  obtain zero | ⟨name, member, missing, same⟩ := e.explained failed
  · exact .inl zero
  · exact .inr ⟨name, (memNames built.settled).2 (written ▸ member), missing, same⟩

theorem evaluateBuilt (built : Formula.ofTextWith naming text = .ok f) (arithmetic : Arithmetic)
    (lookup : Lookup) :
    (∃ e : Grammar.Expression Binary64, e.write Grammar.tokens = f.tokens) ∧
      (∀ e : Grammar.Expression Binary64, e.write Grammar.tokens = f.tokens →
        f.evaluateWith arithmetic lookup = e.evaluate arithmetic lookup) ∧
      (∀ fault, f.evaluateWith arithmetic lookup = .error fault → fault = .divideByZero ∨
        ∃ name ∈ f.names, lookup name = none ∧ fault = .undefinedVariable name) ∧
      ∀ x, Arithmetic.standard.isZero x = true ↔ x = ⟨0⟩ ∨ x = ⟨0x8000000000000000⟩ :=
  ⟨Grammar.derivesIffFits.2 (builtOfText built).fits, fun _ written => evaluateWritten written,
    fun _ failed => evaluateFault (builtOfText built) failed, zeroIff⟩

/- A name is missing on the right, and the division is never come to. -/
theorem quotientEvaluates : ∃ f,
    Formula.ofTextWith (.ofRules .upper .all) "x / (1.50 - y)" = .ok f ∧
      f.evaluate (fun name => if name = "X" then some ⟨0⟩ else none) =
        .error (.undefinedVariable "Y") := by
  have facts := evaluateBuilt quotientBuilds .standard fun name => if name = "X" then some ⟨0⟩ else none
  let inner : Grammar.Expression Binary64 :=
    .chain (.term (.factor (.number ⟨0x3FF8000000000000⟩))) .subtract rfl (.factor (.name "Y"))
  have value := facts.2.1 (.term (.chain (.factor (.name "X")) .divide rfl (.group inner))) rfl
  exact ⟨_, quotientBuilds, value⟩

theorem evaluateWider {wider : Lookup} (within : lookup.Within wider)
    {outcome : Except EvaluationFault Binary64} (came : f.evaluateWith arithmetic lookup = outcome)
    (settled : ∀ name, outcome = .error (.undefinedVariable name) → wider name = none) :
    f.evaluateWith arithmetic wider = outcome := by
  obtain same | ⟨name, missing, found⟩ :=
    @Machine.runWider arithmetic lookup wider .start f.tokens within
  · exact same.symm.trans came
  · exact absurd (settled name (came.symm.trans missing)) found

theorem evaluateDepends (built : Formula.ofTextWith naming text = .ok f) (arithmetic : Arithmetic)
    (lookup : Lookup) :
    (∀ other : Lookup, (∀ name ∈ f.names, lookup name = other name) →
      f.evaluateWith arithmetic lookup = f.evaluateWith arithmetic other) ∧
    (∀ value, f.evaluateWith arithmetic lookup = .ok value →
      ∀ name ∈ f.names, ∃ value, lookup name = some value) ∧
    (∀ name, f.evaluateWith arithmetic lookup = .error (.undefinedVariable name) →
      name ∈ f.names ∧ lookup name = none) ∧
    ((∀ name ∈ f.names, ∃ value, lookup name = some value) →
      ∀ fault, f.evaluateWith arithmetic lookup = .error fault → fault = .divideByZero) ∧
    ∀ wider : Lookup, lookup.Within wider →
      (∀ value, f.evaluateWith arithmetic lookup = .ok value →
        f.evaluateWith arithmetic wider = .ok value) ∧
      (f.evaluateWith arithmetic lookup = .error .divideByZero →
        f.evaluateWith arithmetic wider = .error .divideByZero) ∧
      ∀ name, f.evaluateWith arithmetic lookup = .error (.undefinedVariable name) → wider name = none →
        f.evaluateWith arithmetic wider = .error (.undefinedVariable name) := by
  have settled := (builtOfText built).settled
  refine ⟨fun other agree => ?_, fun value came name member => ?_, fun name failed => ?_,
    fun bound fault failed => ?_, fun wider within => ⟨fun value came => ?_, fun failed => ?_,
      fun name failed missing => ?_⟩⟩
  · exact Machine.runAgrees fun name member => agree name ((memNames settled).2 member)
  · exact Machine.runFinds came ((memNames settled).1 member)
  · obtain ⟨member, missing⟩ := Machine.runUndefined failed
    exact ⟨(memNames settled).2 member, missing⟩
  · obtain zero | ⟨name, member, missing, _⟩ := evaluateFault (builtOfText built) failed
    · exact zero
    · obtain ⟨value, found⟩ := bound name member
      rw [missing] at found
      cases found
  · exact evaluateWider within came fun _ given => nomatch given
  · exact evaluateWider within failed fun _ given => nomatch given
  · refine evaluateWider within failed fun other given => ?_
    cases given
    exact missing

theorem quotientDepends : ∃ f, Formula.ofTextWith (.ofRules .upper .all) "x / (1.50 - y)" = .ok f ∧
    f.evaluate (fun name => if name = "X" then some ⟨0⟩ else none) = .error (.undefinedVariable "Y") ∧
    f.evaluate (fun name => if name = "X" ∨ name = "Z" then some ⟨0⟩ else none) =
      .error (.undefinedVariable "Y") := by
  refine ⟨_, quotientBuilds, rfl, ?_⟩
  have facts := evaluateDepends quotientBuilds .standard fun name => if name = "X" then some ⟨0⟩ else none
  refine (facts.2.2.2.2 (fun name => if name = "X" ∨ name = "Z" then some ⟨0⟩ else none) ?_).2.2 "Y" rfl rfl
  intro name value found
  simp only at found ⊢
  split at found
  · rename_i same
    rw [if_pos (.inl same), found]
  · cases found

end ArithmeticFormula
