import ArithmeticFormula.Journal
import ArithmeticFormula.Machine
import ArithmeticFormula.Proofs.Fault.Messages
import ArithmeticFormula.Proofs.Formula.FirstFault

/-! What the messages of builds and evaluations say. Only a lexeme that is refused for itself may hold a quote,
and no quote ends the field it is shown in. Main statement: two builds that fail with the same message fail with
the same fault, evaluations too, and no message is one of both. The journal of an evaluation shows every token
that is reached, with the stacks as the tokens before it left them. -/
namespace ArithmeticFormula

inductive Fails (text : String) (lookup : Lookup) : Fault → Prop where
  | build {a : FormatFault} (refused : Formula.ofText text = .error a) : Fails text lookup (.format a)
  | evaluation {f : Formula} {c : EvaluationFault} (built : Formula.ofText text = .ok f)
      (failed : f.evaluate lookup = .error c) : Fails text lookup (.evaluation c)

variable {naming : Naming} {text : String} {l : Lexeme} {front : List Lexeme} {fault : FormatFault}

theorem mapErrorFault {ε δ α : Type} {outcome : Except ε α} {wrap : ε → δ} {fault : δ} :
    outcome.mapError wrap = .error fault ↔ ∃ inner, outcome = .error inner ∧ wrap inner = fault := by
  cases outcome <;> simp [Except.mapError]

theorem knownQuoteless (formed : Scan.Formed l) (known : l.kind ≠ .stray) : '\'' ∉ l.text.toList := by
  rw [Lexeme.text, String.toList_ofList]
  intro member
  cases l with
  | leftParen | rightParen => simp [Lexeme.chars] at member
  | operator op => cases op <;> simp [Lexeme.chars, Operator.symbol] at member
  | name raw =>
    have part := isNameAll formed _ member
    have quote : isNamePart '\'' = false := by decide
    rw [quote] at part
    cases part
  | number n =>
    have spelled := Numeral.readSpelled (Numeral.readAlone formed)
    have quote : ¬ (Char.isDigit '\'' = true ∨ '\'' ∈ ['.', 'e', 'E', '+', '-']) := by decide
    exact quote (numeralChar spelled member)
  | stray => exact known rfl

theorem locatedQuoteless (formed : ∀ m ∈ front ++ [l], Scan.Formed m) (settled : ∀ m ∈ front, m.kind ≠ .stray)
    (located : Located naming front l fault) : fault.Quoteless := by
  have here := formed l (List.mem_append_right _ List.mem_cons_self)
  cases located with
  | @unexpected earlier previous before known refused =>
    have last : previous ∈ front := before ▸ List.mem_append_right earlier List.mem_cons_self
    exact ⟨knownQuoteless here known, knownQuoteless (formed _ (List.mem_append_left _ last)) (settled _ last)⟩
  | normalized follows written shapeless =>
    subst written
    exact knownQuoteless here (nomatch ·)
  | unrecognized | unmatched | number | rejected => trivial

theorem buildQuoteless (failed : Formula.ofTextWith naming text = .error fault) : fault.Quoteless := by
  obtain ⟨p, stops⟩ := ofTextError.1 failed
  cases stops with
  | atOnce stops => cases stops <;> trivial
  | unclosed => trivial
  | @within front back l place tokens fault framed parts walked refused =>
    refine locatedQuoteless (fun m member => ?_) (walkKnown walked) (refusedLocated walked (shapeAt parts) refused)
    have scanned : m ∈ Scan.lexemes text.toList := by
      rw [← lexemesOf, parts]
      simp only [List.mem_append, List.mem_cons, List.not_mem_nil, or_false] at member ⊢
      exact member.imp_right .inl
    exact Scan.lexemesForall Scan.lexemeAtFormed _ _ scanned

theorem evaluateTextError {lookup : Lookup} {fault : Fault} (failed : evaluateText text lookup = .error fault) :
    Fails text lookup fault := by
  rw [evaluateText] at failed
  cases built : Formula.ofText text with
  | error a =>
    rw [built] at failed
    exact Except.error.inj failed ▸ .build built
  | ok f =>
    rw [built] at failed
    obtain ⟨c, evaluated, rfl⟩ := mapErrorFault.1 failed
    exact .evaluation built evaluated

theorem messagesTell :
    (∀ (naming other : Naming) (text otherText : String) (a b : FormatFault),
      Formula.ofTextWith naming text = .error a → Formula.ofTextWith other otherText = .error b →
      a.message = b.message → a = b) ∧
    (∀ c d : EvaluationFault, c.message = d.message → c = d) ∧
    (∀ f g : Fault, f.message = g.message →
      (∃ a b, f = .format a ∧ g = .format b ∧ a.message = b.message) ∨
        ∃ c, f = .evaluation c ∧ g = .evaluation c) ∧
    ∀ (text otherText : String) (lookup otherLookup : Lookup) (f g : Fault),
      evaluateText text lookup = .error f → evaluateText otherText otherLookup = .error g →
      f.message = g.message →
      f = g ∧ ((∃ a, Formula.ofText text = .error a) ↔ ∃ b, Formula.ofText otherText = .error b) := by
  have builds : ∀ (naming other : Naming) (text otherText : String) (a b : FormatFault),
      Formula.ofTextWith naming text = .error a → Formula.ofTextWith other otherText = .error b →
      a.message = b.message → a = b := by
    intro naming other text otherText a b failed failedOther same
    exact FormatFault.messageInj (buildQuoteless failed) (buildQuoteless failedOther) same
  refine ⟨builds, fun c d => EvaluationFault.messageInj, fun f g => Fault.messageCases,
    fun text otherText lookup otherLookup f g failed failedOther same => ?_⟩
  cases evaluateTextError failed with
  | @build a refused =>
    cases evaluateTextError failedOther with
    | @build b refusedOther =>
      rw [builds _ _ _ _ a b refused refusedOther (Fault.messageFormat.1 same)]
      exact ⟨rfl, iff_of_true ⟨a, refused⟩ ⟨b, refusedOther⟩⟩
    | @evaluation _ d => exact absurd same (Fault.messagesApart a d)
  | @evaluation x c built =>
    cases evaluateTextError failedOther with
    | @build b => exact absurd same.symm (Fault.messagesApart b c)
    | @evaluation y d builtOther =>
      rw [Fault.messageEvaluation.1 same, built, builtOther]
      exact ⟨rfl, iff_of_false nofun nofun⟩

/- A new name that holds words of its own message. -/
theorem wordsInNewName :
    Formula.ofTextWith (.ofRules (.always "b' became 'c") .all) "a" =
      .error (.invalidNormalizedVariable "a" "b' became 'c") ∧
    ∀ (naming : Naming) (text : String) (b : FormatFault), Formula.ofTextWith naming text = .error b →
      b.message = "normalizer produced an invalid variable name: 'a' became 'b' became 'c'" →
      b = .invalidNormalizedVariable "a" "b' became 'c" := by
  have lexemes : lexemesOf "a" = [.name "a"] := Scan.lexemesSingle rfl
  have failed : Formula.ofTextWith (.ofRules (.always "b' became 'c") .all) "a" =
      .error (.invalidNormalizedVariable "a" "b' became 'c") := by
    rw [ofTextWritten (by decide), lexemes]
    rfl
  refine ⟨failed, fun naming text b failedOther same => ?_⟩
  exact messagesTell.1 naming _ text "a" b _ failedOther failed same

theorem Machine.visitedAt {arithmetic : Arithmetic} {lookup : Lookup} {m met : Machine} {t : Token}
    {tokens : List Token} {n : Nat} : (m.visited arithmetic lookup tokens)[n]? = some (t, met) ↔
      tokens[n]? = some t ∧ m.feed arithmetic lookup (tokens.take n) = .ok met := by
  induction tokens generalizing m n with
  | nil => simp [visited]
  | cons u rest ih =>
    cases n with
    | zero => simp [visited, feed]
    | succ n =>
      simp only [visited, List.getElem?_cons_succ, List.take_succ_cons, feed]
      cases m.step arithmetic lookup u with
      | ok next => exact ih
      | error fault => simp

theorem Journal.reachedAt (lookup : Lookup) (tokens : List Token) (n : Nat) (event : Event) :
    (Journal.ofTokens lookup tokens)[n]? = some event ↔ ∃ t met, tokens[n]? = some t ∧
      Machine.start.feed .standard lookup (tokens.take n) = .ok met ∧ .reached t met = event := by
  rw [Journal.ofTokens, List.getElem?_map, Option.map_eq_some_iff]
  simp only [Prod.exists, Machine.visitedAt, and_assoc]

end ArithmeticFormula
