import ArithmeticFormula.Fault
import ArithmeticFormula.Proofs.Text.Wording

/-! What a message says. The rule a fault breaks fixes the words of its message, and the words of no two rules can
be taken for each other. Main statements: a format fault is told by its message if the fields that a quote ends
hold none; an evaluation fault always is, and so is which of the two a fault is. -/
namespace ArithmeticFormula

variable {number other : Nat}

theorem openedText (word field ending : String) :
    Worded [word] (some ending) [field] (word ++ field ++ ending).toList := by
  rw [String.toList_append, String.toList_append, List.append_assoc]
  exact .opened

theorem fieldText {word field next text : String} {stop : Char} {words fields : List String}
    {ending : Option String} (head : next.toList.head? = some stop) (stops : stop ∉ field.toList)
    (later : Worded (next :: words) ending fields text.toList) :
    Worded (word :: next :: words) ending (field :: fields) (word ++ field ++ text).toList := by
  rw [String.toList_append, String.toList_append, List.append_assoc]
  exact .field head stops later

theorem countDigits : ∀ c ∈ (toString number).toList, c.isDigit = true := by
  intro c member
  change c ∈ (Nat.repr number).toList at member
  rw [Nat.toList_repr] at member
  exact Decimal.digitsAll c member

theorem countWithout {c : Char} (notDigit : c.isDigit = false) : c ∉ (toString number).toList := by
  intro member
  rw [countDigits c member] at notDigit
  cases notDigit

theorem countInj (same : toString number = toString other) : number = other := by
  have digits : Nat.toDigits 10 number = Nat.toDigits 10 other := by
    rw [← Nat.toList_repr, ← Nat.toList_repr]
    exact congrArg String.toList same
  calc number = Nat.ofDigitChars 10 (Nat.toDigits 10 number) 0 := Nat.ofDigitChars_ten_toDigits.symm
    _ = Nat.ofDigitChars 10 (Nat.toDigits 10 other) 0 := by rw [digits]
    _ = other := Nat.ofDigitChars_ten_toDigits

theorem Expected.descriptionInj {first second : Expected} (same : first.description = second.description) :
    first = second := by
  have apart : Expected.operand.description ≠ Expected.operatorOrClose.description := by decide
  cases first with
  | operand =>
    cases second with
    | operand => rfl
    | operatorOrClose => exact absurd same apart
  | operatorOrClose =>
    cases second with
    | operand => exact absurd same.symm apart
    | operatorOrClose => rfl

namespace FormatFault

inductive Rule where
  | empty
  | noTokens
  | invalidStart
  | invalidEnd
  | unexpectedToken
  | unmatchedClose
  | unclosed
  | invalidVariable
  | invalidNormalizedVariable
  | rejectedVariable
  | invalidNumber
  | unrecognized
  deriving DecidableEq, Repr

def Rule.words : Rule → List String
  | empty => ["formula is empty"]
  | noTokens => ["formula contains no tokens"]
  | invalidStart => ["formula cannot start with '"]
  | invalidEnd => ["formula cannot end with '"]
  | unexpectedToken => ["'", "' at token ", " cannot follow '", "': expected "]
  | unmatchedClose => ["'", "' at token ", " has no matching '('"]
  | unclosed => [" '(' left unclosed"]
  | invalidVariable => ["invalid variable name '"]
  | invalidNormalizedVariable => ["normalizer produced an invalid variable name: '", "' became '"]
  | rejectedVariable => ["variable rejected by validity predicate: '"]
  | invalidNumber => ["invalid number literal '"]
  | unrecognized => ["unrecognized token '"]

def Rule.ending : Rule → Option String
  | empty | noTokens | unmatchedClose | unclosed => none
  | invalidStart => some "': expected a number, a variable or '('"
  | invalidEnd => some "': expected a number, a variable or ')'"
  | unexpectedToken => some ""
  | invalidVariable | invalidNormalizedVariable | rejectedVariable | invalidNumber | unrecognized => some "'"

def rule : FormatFault → Rule
  | empty => .empty
  | noTokens => .noTokens
  | invalidStart _ => .invalidStart
  | invalidEnd _ => .invalidEnd
  | unexpectedToken .. => .unexpectedToken
  | unmatchedClose _ => .unmatchedClose
  | unclosed _ => .unclosed
  | invalidVariable _ => .invalidVariable
  | invalidNormalizedVariable .. => .invalidNormalizedVariable
  | rejectedVariable _ => .rejectedVariable
  | invalidNumber _ => .invalidNumber
  | unrecognized _ => .unrecognized

def fields : FormatFault → List String
  | empty | noTokens | unclosed _ => []
  | invalidStart token | invalidEnd token => [token]
  | invalidVariable name | rejectedVariable name => [name]
  | invalidNumber text | unrecognized text => [text]
  | unexpectedToken token previous position expected =>
      [token, toString position, previous, expected.description]
  | unmatchedClose position => [")", toString position]
  | invalidNormalizedVariable raw normalized => [raw, normalized]

def count : FormatFault → String
  | unclosed count => toString count
  | _ => ""

def Quoteless : FormatFault → Prop
  | unexpectedToken token previous _ _ => '\'' ∉ token.toList ∧ '\'' ∉ previous.toList
  | invalidNormalizedVariable raw _ => '\'' ∉ raw.toList
  | _ => True

variable {f g : FormatFault}

theorem rulesPart (r s : Rule) : r = s ∨ part r.words s.words = true := by
  cases r <;> cases s <;> first | exact .inl rfl | exact .inr rfl

theorem wordsBegin (r : Rule) : ∃ word words stop, r.words = word :: words ∧ word.toList.head? = some stop ∧
    stop.isDigit = false := by
  cases r <;> exact ⟨_, _, _, rfl, rfl, rfl⟩

theorem messageWorded (quoteless : f.Quoteless) :
    ∃ rest, f.message.toList = f.count.toList ++ rest ∧ Worded f.rule.words f.rule.ending f.fields rest := by
  cases f with
  | empty | noTokens => exact ⟨_, rfl, .closed⟩
  | invalidStart | invalidEnd | invalidVariable | rejectedVariable | invalidNumber | unrecognized =>
    exact ⟨_, rfl, openedText _ _ _⟩
  | unclosed count => exact ⟨_, String.toList_append, .closed⟩
  | unmatchedClose position =>
    have opening : "')' at token " = "'" ++ ")" ++ "' at token " := rfl
    have text : (unmatchedClose position).message =
        "'" ++ ")" ++ ("' at token " ++ toString position ++ " has no matching '('") := by
      change "')' at token " ++ toString position ++ " has no matching '('" = _
      rw [opening]
      simp only [String.append_assoc]
    have stops : '\'' ∉ ")".toList := by decide
    exact ⟨_, congrArg String.toList text, fieldText rfl stops (fieldText rfl (countWithout rfl) .closed)⟩
  | unexpectedToken token previous position expected =>
    have text : (unexpectedToken token previous position expected).message = "'" ++ token ++
        ("' at token " ++ toString position ++ (" cannot follow '" ++ previous ++
          ("': expected " ++ expected.description ++ ""))) := by
      change (_ ++ _ : String) = _
      simp only [String.append_assoc, String.append_empty]
      rfl
    exact ⟨_, congrArg String.toList text, fieldText rfl quoteless.1 (fieldText rfl (countWithout rfl)
      (fieldText rfl quoteless.2 (openedText _ _ _)))⟩
  | invalidNormalizedVariable raw normalized =>
    have text : (invalidNormalizedVariable raw normalized).message =
        "normalizer produced an invalid variable name: '" ++ raw ++ ("' became '" ++ normalized ++ "'") := by
      change (_ ++ _ : String) = _
      simp only [String.append_assoc]
      rfl
    exact ⟨_, congrArg String.toList text, fieldText rfl quoteless (openedText _ _ _)⟩

theorem countStops {rest : List Char} (worded : Worded f.rule.words f.rule.ending f.fields rest) :
    (∀ c ∈ f.count.toList, c.isDigit = true) ∧ ∀ c, rest.head? = some c → c.isDigit = false := by
  constructor
  · cases f with
    | unclosed count => exact fun c => countDigits c
    | _ => exact fun c member => nomatch member
  · obtain ⟨word, words, stop, begins, head, notDigit⟩ := wordsBegin f.rule
    rw [begins] at worded
    obtain ⟨later, rfl⟩ := wordedHead worded head
    intro c found
    exact Option.some.inj found ▸ notDigit

theorem ofParts (rules : f.rule = g.rule) (counts : f.count = g.count) (fields : f.fields = g.fields) :
    f = g := by
  cases f with
  | empty | noTokens =>
    cases g <;> cases rules
    rfl
  | invalidStart | invalidEnd | invalidVariable | rejectedVariable | invalidNumber | unrecognized |
      invalidNormalizedVariable =>
    cases g <;> cases rules
    cases fields
    rfl
  | unclosed count =>
    cases g <;> cases rules
    rw [countInj counts]
  | unexpectedToken token previous position expected =>
    cases g <;> cases rules
    simp only [FormatFault.fields, List.cons.injEq, and_true] at fields
    obtain ⟨rfl, position, rfl, expected⟩ := fields
    rw [countInj position, Expected.descriptionInj expected]
  | unmatchedClose position =>
    cases g <;> cases rules
    simp only [FormatFault.fields, List.cons.injEq, and_true, true_and] at fields
    rw [countInj fields]

theorem messageInj (quoteless : f.Quoteless) (quotelessOther : g.Quoteless) (same : f.message = g.message) :
    f = g := by
  obtain ⟨rest, text, worded⟩ := messageWorded quoteless
  obtain ⟨tail, otherText, otherWorded⟩ := messageWorded quotelessOther
  have parts := spanWhole (countStops worded).1 (countStops worded).2
  have otherParts := spanWhole (countStops otherWorded).1 (countStops otherWorded).2
  rw [← text, same, otherText] at parts
  have counts := String.toList_inj.1 (parts.1.symm.trans otherParts.1)
  have rests := parts.2.symm.trans otherParts.2
  obtain rules | apart := rulesPart f.rule g.rule
  · rw [rules] at worded
    exact ofParts rules counts (wordedUnique worded otherWorded rests)
  · exact absurd rests (wordedApart apart worded otherWorded)

/- A quote in a name as written may stand for the one that ends it. -/
example : (invalidNormalizedVariable "a' became 'b" "c").message =
    (invalidNormalizedVariable "a" "b' became 'c").message := rfl

end FormatFault

namespace EvaluationFault

inductive Rule where
  | undefinedVariable
  | divideByZero
  | stackUnderflow
  | mismatchedParenthesis
  | malformedResult
  deriving DecidableEq, Repr

def Rule.words : Rule → List String
  | undefinedVariable => ["undefined variable '"]
  | divideByZero => ["division by zero"]
  | stackUnderflow => ["not enough operands for '"]
  | mismatchedParenthesis => ["mismatched parenthesis"]
  | malformedResult => ["malformed result: ", " operand(s) and ", " operator(s) left"]

def Rule.ending : Rule → Option String
  | undefinedVariable | stackUnderflow => some "'"
  | divideByZero | mismatchedParenthesis | malformedResult => none

def rule : EvaluationFault → Rule
  | undefinedVariable _ => .undefinedVariable
  | divideByZero => .divideByZero
  | stackUnderflow _ => .stackUnderflow
  | mismatchedParenthesis => .mismatchedParenthesis
  | malformedResult .. => .malformedResult

def fields : EvaluationFault → List String
  | undefinedVariable name => [name]
  | stackUnderflow operator => [toString operator]
  | divideByZero | mismatchedParenthesis => []
  | malformedResult operands operators => [toString operands, toString operators]

variable {f g : EvaluationFault}

theorem rulesPart (r s : Rule) : r = s ∨ part r.words s.words = true := by
  cases r <;> cases s <;> first | exact .inl rfl | exact .inr rfl

theorem messageWorded (f : EvaluationFault) : Worded f.rule.words f.rule.ending f.fields f.message.toList := by
  cases f with
  | divideByZero | mismatchedParenthesis => exact .closed
  | undefinedVariable | stackUnderflow => exact openedText _ _ _
  | malformedResult operands operators =>
    have text : (malformedResult operands operators).message = "malformed result: " ++ toString operands ++
        (" operand(s) and " ++ toString operators ++ " operator(s) left") := by
      change (_ ++ _ : String) = _
      simp only [String.append_assoc]
      rfl
    rw [text]
    exact fieldText rfl (countWithout rfl) (fieldText rfl (countWithout rfl) .closed)

theorem ofParts (rules : f.rule = g.rule) (fields : f.fields = g.fields) : f = g := by
  cases f with
  | divideByZero | mismatchedParenthesis =>
    cases g <;> cases rules
    rfl
  | undefinedVariable =>
    cases g <;> cases rules
    cases fields
    rfl
  | stackUnderflow operator =>
    cases g <;> cases rules
    rw [String.singleton_inj.1 (List.singleton_inj.1 fields)]
  | malformedResult operands operators =>
    cases g <;> cases rules
    simp only [EvaluationFault.fields, List.cons.injEq, and_true] at fields
    rw [countInj fields.1, countInj fields.2]

theorem messageInj (same : f.message = g.message) : f = g := by
  have texts := congrArg String.toList same
  have worded := messageWorded f
  obtain rules | apart := rulesPart f.rule g.rule
  · rw [rules] at worded
    exact ofParts rules (wordedUnique worded (messageWorded g) texts)
  · exact absurd texts (wordedApart apart worded (messageWorded g))

end EvaluationFault

namespace Fault

variable {f g : Fault} {a b : FormatFault} {c d : EvaluationFault}

theorem messagesApart (a : FormatFault) (c : EvaluationFault) : (format a).message ≠ (evaluation c).message := by
  have clashes : clash "format error: ".toList "evaluation error: ".toList = true := rfl
  intro same
  refine clashApart clashes a.message.toList c.message.toList ?_
  rw [← String.toList_append, ← String.toList_append]
  exact congrArg String.toList same

theorem messageFormat : (format a).message = (format b).message ↔ a.message = b.message :=
  String.append_right_inj _

theorem messageEvaluation : (evaluation c).message = (evaluation d).message ↔ c = d := by
  refine ⟨fun same => EvaluationFault.messageInj ((String.append_right_inj _).1 same), ?_⟩
  rintro rfl
  rfl

theorem messageCases (same : f.message = g.message) :
    (∃ a b, f = .format a ∧ g = .format b ∧ a.message = b.message) ∨
      ∃ c, f = .evaluation c ∧ g = .evaluation c := by
  cases f with
  | format a =>
    cases g with
    | format b => exact .inl ⟨a, b, rfl, rfl, messageFormat.1 same⟩
    | evaluation d => exact absurd same (messagesApart a d)
  | evaluation c =>
    cases g with
    | format b => exact absurd same.symm (messagesApart b c)
    | evaluation d => exact .inr ⟨c, rfl, congrArg _ (messageEvaluation.1 same).symm⟩

end Fault
end ArithmeticFormula
