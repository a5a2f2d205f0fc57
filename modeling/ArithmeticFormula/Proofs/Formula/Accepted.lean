import ArithmeticFormula.Formula
import ArithmeticFormula.Naming
import ArithmeticFormula.Proofs.Grammar.Fits
import ArithmeticFormula.Proofs.Lexeme.Scan
import Mathlib.Data.List.Forall2

/-! What a formula is built from. The checks on the way through the lexemes, each against the one before
it and against the count of open parentheses, are the places of the grammar; the tokens are the lexemes
one by one, and the set that the loop carries along holds at each step the names of the tokens so far. Main
statement: a text builds exactly if the grammar derives its lexemes, its numerals have a value and its names
are taken, and then the stored variables are the names in its tokens. -/
namespace ArithmeticFormula

inductive Lexeme.Becomes (naming : Naming) : Lexeme → Token → Prop where
  | leftParen : Becomes naming .leftParen .leftParen
  | rightParen : Becomes naming .rightParen .rightParen
  | operator (op : Operator) : Becomes naming (.operator op) (.operator op)
  | number {numeral : Numeral} {value : Binary64} (reads : numeral.value? = some value) :
      Becomes naming (.number numeral) (.number value)
  | name {raw : String} (rawShape : isName raw = true) (shape : isName (naming.rename raw) = true)
      (admitted : naming.admits (naming.rename raw) = true) :
      Becomes naming (.name raw) (.name (naming.rename raw))

variable {naming : Naming} {l : Lexeme} {t : Token} {place : Place} {expected : Expected}
variable {depth : Nat} {lexemes rest : List Lexeme} {tokens : List Token} {f : Formula}
variable {known final : TextSet} {name : String}

theorem toTokenName (naming : Naming) (raw : String) :
    (Lexeme.name raw).toToken naming = (naming.resolve raw).map .name := by
  simp only [Lexeme.toToken, Lexeme.enter]
  cases naming.resolve raw <;> rfl

theorem toTokenNumber (naming : Naming) (n : Numeral) : (Lexeme.number n).toToken naming =
    n.value?.elim (.error (.invalidNumber n.text)) (.ok ∘ .number) := by
  simp only [Lexeme.toToken, Lexeme.enter]
  cases n.value? <;> rfl

theorem toTokenOk : l.toToken naming = .ok t ↔ l.Becomes naming t := by
  constructor
  · intro read
    cases l with
    | leftParen => cases read; exact .leftParen
    | rightParen => cases read; exact .rightParen
    | operator op => cases read; exact .operator op
    | name raw =>
      rw [toTokenName] at read
      obtain ⟨name, resolved, rfl⟩ := Outcome.mapOk.1 read
      obtain ⟨rawShape, rfl, shape, admitted⟩ := Naming.resolveIff.1 resolved
      exact .name rawShape shape admitted
    | number numeral =>
      rw [toTokenNumber] at read
      cases value : numeral.value? with
      | none => rw [value] at read; cases read
      | some x => rw [value] at read; cases read; exact .number value
    | stray text => cases read
  · intro becomes
    cases becomes with
    | leftParen => rfl
    | rightParen => rfl
    | operator op => rfl
    | number reads => rw [toTokenNumber, reads, Option.elim_some, Function.comp]
    | name rawShape shape admitted =>
      rw [toTokenName]
      exact Outcome.mapOk.2 ⟨_, Naming.resolveIff.2 ⟨rawShape, rfl, shape, admitted⟩, rfl⟩

def TextSet.noting (known : TextSet) : Token → TextSet
  | .name name => known.insert name
  | .number _ | .operator _ | .leftParen | .rightParen => known

theorem memNoting : name ∈ known.noting t ↔ name ∈ known ∨ t = .name name := by
  cases t with
  | name text => simp [TextSet.noting, or_comm, eq_comm]
  | number | operator | leftParen | rightParen => simp [TextSet.noting]

theorem memNoted : name ∈ tokens.foldl TextSet.noting known ↔ name ∈ known ∨ .name name ∈ tokens := by
  induction tokens generalizing known with
  | nil => simp
  | cons t tokens ih => rw [List.foldl_cons, ih, memNoting, List.mem_cons, or_assoc, @eq_comm _ t]

theorem enterNotes (naming : Naming) (known : TextSet) (l : Lexeme) :
    l.enter naming known = (l.toToken naming).map fun t => (t, known.noting t) := by
  cases l with
  | leftParen | rightParen | operator | stray => rfl
  | name raw =>
    rw [toTokenName, Lexeme.enter]
    cases naming.resolve raw <;> rfl
  | number n =>
    rw [toTokenNumber, Lexeme.enter]
    cases n.value? <;> rfl

theorem becomesNotStray (becomes : l.Becomes naming t) : l.kind ≠ .stray := by
  cases becomes <;> simp [Lexeme.kind]

def Place.due (place : Place) : Expected :=
  place.previous.elim .operand fun previous => previous.kind.expectedNext

theorem startFirst (l : Lexeme) : Place.start.previous ≠ some l := nofun

theorem checkNeighbourOk : place.checkNeighbour l = .ok () ↔
    ∀ previous, place.previous = some previous → previous.kind.admitsNext l.kind = true := by
  unfold Place.checkNeighbour
  cases place.previous with
  | none => simp
  | some previous => cases admitted : previous.kind.admitsNext l.kind <;> simp [admitted]

theorem checkNeighbourDue (meets : l.kind.meets place.due = true) :
    place.checkNeighbour l = .ok () := by
  refine checkNeighbourOk.2 fun previous found => ?_
  rw [Place.due, found, Option.elim_some] at meets
  simp [Kind.admitsNext, meets]

theorem meetsDue (checked : place.checkNeighbour l = .ok ()) (notStray : l.kind ≠ .stray)
    (settled : ∀ previous, place.previous = some previous → previous.kind ≠ .stray)
    (first : place.previous = none → l.kind.beginsOperand = true) : l.kind.meets place.due = true := by
  rw [Place.due]
  cases found : place.previous with
  | none => exact first found
  | some previous =>
    have admitted := checkNeighbourOk.1 checked previous found
    simpa [Kind.admitsNext, notStray, settled previous found] using admitted

theorem fitsCons (meets : l.kind.meets expected = true) {after : Nat}
    (opens : place.depthAfter l = .ok after)
    (next : Grammar.Fits Grammar.lexemes l.kind.expectedNext after rest) :
    Grammar.Fits Grammar.lexemes expected place.depth (l :: rest) := by
  cases expected with
  | operand =>
    cases l with
    | leftParen => cases opens; exact .leftParen next
    | name raw => cases opens; exact .name raw next
    | number numeral => cases opens; exact .number numeral next
    | rightParen | operator | stray => cases meets
  | operatorOrClose =>
    cases l with
    | operator op => cases opens; exact .operator op next
    | rightParen =>
      obtain ⟨position, depth, previous⟩ := place
      cases depth with
      | zero => cases opens
      | succ depth => cases opens; exact .rightParen next
    | leftParen | name | number | stray => cases meets

theorem tokensFromCons : Formula.tokensFrom naming place known (l :: rest) = .ok (tokens, final) ↔
    place.checkNeighbour l = .ok () ∧ ∃ after t later, place.depthAfter l = .ok after ∧
      l.Becomes naming t ∧
      Formula.tokensFrom naming ⟨place.position + 1, after, some l⟩ (known.noting t) rest =
        .ok (later, final) ∧
      tokens = t :: later := by
  simp only [Formula.tokensFrom, enterNotes, Outcome.bindOk, Outcome.mapOk, toTokenOk]
  constructor
  · intro given
    obtain ⟨_, checked, after, opens, _, ⟨t, becomes, rfl⟩, ⟨later, _⟩, last, same⟩ := given
    cases same
    exact ⟨checked, after, t, later, opens, becomes, last, rfl⟩
  · intro given
    obtain ⟨checked, after, t, later, opens, becomes, last, rfl⟩ := given
    exact ⟨(), checked, after, opens, _, ⟨t, becomes, rfl⟩, (later, final), last, rfl⟩

/- The loop keeps the set of the names passed. -/
theorem tokensFromNotes (read : Formula.tokensFrom naming place known lexemes = .ok (tokens, final)) :
    final = tokens.foldl TextSet.noting known := by
  induction lexemes generalizing place known tokens with
  | nil =>
    unfold Formula.tokensFrom at read
    split at read <;> cases read
    rfl
  | cons l rest ih =>
    obtain ⟨_, _, t, later, _, _, onward, rfl⟩ := tokensFromCons.1 read
    rw [List.foldl_cons, ← ih onward]

theorem fitsOfTokens (read : Formula.tokensFrom naming place known lexemes = .ok (tokens, final))
    (settled : ∀ previous, place.previous = some previous → previous.kind ≠ .stray)
    (first : place.previous = none → ∃ l, lexemes.head? = some l ∧ l.kind.beginsOperand = true)
    (last : ∃ l, (place.previous.toList ++ lexemes).getLast? = some l ∧ l.kind.endsOperand = true) :
    Grammar.Fits Grammar.lexemes place.due place.depth lexemes ∧
      List.Forall₂ (Lexeme.Becomes naming) lexemes tokens := by
  induction lexemes generalizing place known tokens with
  | nil =>
    obtain ⟨position, depth, previous⟩ := place
    cases previous with
    | none =>
      obtain ⟨l, found, _⟩ := first rfl
      cases found
    | some previous =>
      obtain ⟨l, found, ends⟩ := last
      cases found
      simp only [Formula.tokensFrom] at read
      split at read
      · rename_i closed
        cases read
        subst closed
        have due : Place.due ⟨position, 0, some previous⟩ = .operatorOrClose := if_pos ends
        rw [due]
        exact ⟨.done, .nil⟩
      · cases read
  | cons l rest ih =>
    obtain ⟨checked, after, t, later, opens, becomes, onward, rfl⟩ := tokensFromCons.1 read
    have notStray := becomesNotStray becomes
    have begins : place.previous = none → l.kind.beginsOperand = true := by
      intro start
      obtain ⟨_, found, begins⟩ := first start
      cases found
      exact begins
    have ends : ∃ e, ((some l).toList ++ rest).getLast? = some e ∧ e.kind.endsOperand = true := by
      simpa [List.getLast?_append, List.getLast?_cons] using last
    have tail := @ih ⟨place.position + 1, after, some l⟩ later _ onward
      (fun _ found => Option.some.inj found ▸ notStray) (fun start => nomatch start) ends
    exact ⟨fitsCons (meetsDue checked notStray settled begins) opens tail.1, .cons becomes tail.2⟩

theorem tokensStep (due : place.due = expected) (meets : l.kind.meets expected = true) {after : Nat}
    (opens : place.depthAfter l = .ok after)
    (becomes : List.Forall₂ (Lexeme.Becomes naming) (l :: rest) tokens)
    (next : ∀ later, List.Forall₂ (Lexeme.Becomes naming) rest later →
      ∀ known, Formula.tokensFrom naming ⟨place.position + 1, after, some l⟩ known rest =
        .ok (later, later.foldl TextSet.noting known)) :
    Formula.tokensFrom naming place known (l :: rest) = .ok (tokens, tokens.foldl TextSet.noting known) := by
  subst due
  cases becomes with
  | cons head tail =>
    exact tokensFromCons.2 ⟨checkNeighbourDue meets, after, _, _, opens, head, next _ tail _, rfl⟩

theorem tokensOfFits (fits : Grammar.Fits Grammar.lexemes expected depth lexemes)
    (becomes : List.Forall₂ (Lexeme.Becomes naming) lexemes tokens)
    (due : place.due = expected) (count : place.depth = depth) :
    Formula.tokensFrom naming place known lexemes = .ok (tokens, tokens.foldl TextSet.noting known) := by
  induction fits generalizing place known tokens with
  | done =>
    cases becomes
    simp only [Formula.tokensFrom, count, if_true, List.foldl_nil]
  | number _ _ ih | name _ _ ih | leftParen _ ih | operator _ _ ih =>
    subst count
    exact tokensStep due rfl rfl becomes fun _ tail _ => ih tail rfl rfl
  | rightParen next ih =>
    obtain ⟨position, _, previous⟩ := place
    subst count
    exact tokensStep due rfl rfl becomes fun _ tail _ => ih tail rfl rfl

theorem fitsHead (fits : Grammar.Fits Grammar.lexemes .operand depth lexemes) :
    ∃ l, lexemes.head? = some l ∧ l.kind.beginsOperand = true := by
  cases fits with
  | number value next => exact ⟨_, rfl, rfl⟩
  | name text next => exact ⟨_, rfl, rfl⟩
  | leftParen next => exact ⟨_, rfl, rfl⟩

theorem fitsLast (fits : Grammar.Fits Grammar.lexemes expected depth lexemes)
    (due : l.kind.expectedNext = expected) :
    ∃ last, (l :: lexemes).getLast? = some last ∧ last.kind.endsOperand = true := by
  -- what is due at a place tells whether the lexeme before it ends an operand
  induction fits generalizing l with
  | done =>
    refine ⟨l, rfl, ?_⟩
    by_contra other
    simp [Kind.expectedNext, other] at due
  | number _ _ ih | name _ _ ih | leftParen _ ih | operator _ _ ih | rightParen _ ih =>
    rw [List.getLast?_cons_cons]
    exact ih rfl

def Formula.ofTokens (tokens : List Token) : Formula :=
  .ofRead (tokens, tokens.foldl TextSet.noting .empty)

theorem memNames (settled : f = .ofTokens f.tokens) : name ∈ f.names ↔ .name name ∈ f.tokens := by
  have stored : f.variableSet = f.tokens.foldl TextSet.noting .empty := congrArg Formula.variableSet settled
  rw [Formula.names, TextSet.memTexts, stored, memNoted]
  simp

theorem ofLexemesCons {first : Lexeme} : Formula.ofLexemes naming (first :: rest) = .ok f ↔
    first.kind.beginsOperand = true ∧
      (∃ last, (first :: rest).getLast? = some last ∧ last.kind.endsOperand = true) ∧
      ∃ read, Formula.tokensFrom naming .start .empty (first :: rest) = .ok read ∧ .ofRead read = f := by
  obtain ⟨last, found⟩ : ∃ last, (first :: rest).getLast? = some last := ⟨_, List.getLast?_cons⟩
  simp only [Formula.ofLexemes, List.head?_cons, found]
  cases begins : first.kind.beginsOperand with
  | false => simp
  | true =>
    cases ends : last.kind.endsOperand with
    | false => simp [ends]
    | true => simp [ends, Outcome.mapOk]

theorem ofLexemesOk : Formula.ofLexemes naming lexemes = .ok f ↔
    Grammar.Fits Grammar.lexemes .operand 0 lexemes ∧
      List.Forall₂ (Lexeme.Becomes naming) lexemes f.tokens ∧ f = .ofTokens f.tokens := by
  cases lexemes with
  | nil =>
    constructor
    · intro built
      cases built
    · intro given
      obtain ⟨fits, _⟩ := given
      cases fits
  | cons first rest =>
    rw [ofLexemesCons]
    constructor
    · intro given
      obtain ⟨begins, last, ⟨tokens, final⟩, read, rfl⟩ := given
      obtain ⟨fits, becomes⟩ :=
        fitsOfTokens read (fun l found => absurd found (startFirst l)) (fun _ => ⟨first, rfl, begins⟩) last
      obtain rfl := tokensFromNotes read
      exact ⟨fits, becomes, rfl⟩
    · intro given
      obtain ⟨fits, becomes, same⟩ := given
      obtain ⟨_, found, begins⟩ := fitsHead fits
      cases found
      have last := fitsLast (l := .leftParen) fits rfl
      rw [List.getLast?_cons_cons] at last
      exact ⟨begins, last, _, tokensOfFits fits becomes rfl rfl, same.symm⟩

theorem ofTextOk {text : String} : Formula.ofTextWith naming text = .ok f ↔
    Grammar.Fits Grammar.lexemes .operand 0 (lexemesOf text) ∧
      List.Forall₂ (Lexeme.Becomes naming) (lexemesOf text) f.tokens ∧ f = .ofTokens f.tokens := by
  rw [Formula.ofTextWith, ← ofLexemesOk]
  split
  · rename_i empty
    have none : lexemesOf text = [] := by
      rw [String.isEmpty_iff.1 empty]
      exact Scan.lexemesOfNone rfl
    rw [none]
    constructor <;> intro built <;> cases built
  · exact Iff.rfl

theorem quotientBuilds : Formula.ofTextWith (.ofRules .upper .all) "x / (1.50 - y)" =
    .ok (.ofTokens [.name "X", .operator .divide, .leftParen, .number ⟨0x3FF8000000000000⟩,
      .operator .subtract, .name "Y", .rightParen]) := by
  have chars : "x / (1.50 - y)".toList =
      ['x', ' ', '/', ' ', '(', '1', '.', '5', '0', ' ', '-', ' ', 'y', ')'] := by decide
  have lexemes : lexemesOf "x / (1.50 - y)" =
      [.name "x", .operator .divide, .leftParen, .number ⟨['1'], some ['5', '0'], none⟩,
        .operator .subtract, .name "y", .rightParen] := by
    rw [lexemesOf, chars]
    iterate 7 rw [Scan.lexemesOfSome rfl]
    rw [Scan.lexemesOfNone rfl]
    rfl
  have value : (⟨['1'], some ['5', '0'], none⟩ : Numeral).value? = some ⟨0x3FF8000000000000⟩ := by
    decide +kernel
  have x : (Lexeme.name "x").Becomes (.ofRules .upper .all) (.name "X") :=
    .name (by decide) (by decide) (by decide)
  have y : (Lexeme.name "y").Becomes (.ofRules .upper .all) (.name "Y") :=
    .name (by decide) (by decide) (by decide)
  rw [ofTextOk, lexemes]
  refine ⟨.name _ (.operator _ (.leftParen (.number _ (.operator _ (.name _ (.rightParen .done)))))), ?_, rfl⟩
  exact .cons x (.cons (.operator _) (.cons .leftParen (.cons (.number value)
    (.cons (.operator _) (.cons y (.cons .rightParen .nil))))))

theorem becomesNumber {numeral : Numeral} : (∃ t, (Lexeme.number numeral).Becomes naming t) ↔
    ∃ x, numeral.value? = some x ∧ x.isFinite = true := by
  constructor
  · intro given
    obtain ⟨_, becomes⟩ := given
    cases becomes with
    | number reads => exact ⟨_, reads, (Decimal.nearestPlain reads).finite⟩
  · intro given
    obtain ⟨x, reads, _⟩ := given
    exact ⟨.number x, .number reads⟩

theorem becomesName {raw : String} (rawShape : isName raw = true) :
    (∃ t, (Lexeme.name raw).Becomes naming t) ↔
      isName (naming.rename raw) = true ∧ naming.admits (naming.rename raw) = true := by
  constructor
  · intro given
    obtain ⟨_, becomes⟩ := given
    cases becomes with
    | name _ shape admitted => exact ⟨shape, admitted⟩
  · intro given
    obtain ⟨shape, admitted⟩ := given
    exact ⟨_, .name rawShape shape admitted⟩

theorem becomesEach : (∃ tokens, List.Forall₂ (Lexeme.Becomes naming) lexemes tokens) ↔
    ∀ l ∈ lexemes, ∃ t, l.Becomes naming t := by
  induction lexemes with
  | nil => exact ⟨fun _ => by simp, fun _ => ⟨[], .nil⟩⟩
  | cons l rest ih =>
    rw [List.forall_mem_cons, ← ih]
    constructor
    · intro given
      obtain ⟨_, becomes⟩ := given
      cases becomes with
      | cons head tail => exact ⟨⟨_, head⟩, ⟨_, tail⟩⟩
    · intro given
      obtain ⟨⟨t, head⟩, ⟨tokens, tail⟩⟩ := given
      exact ⟨t :: tokens, .cons head tail⟩

theorem fitsNotStray (fits : Grammar.Fits Grammar.lexemes expected depth lexemes) :
    ∀ l ∈ lexemes, l.kind ≠ .stray := by
  induction fits with
  | done => simp
  | number _ _ ih | name _ _ ih | operator _ _ ih | leftParen _ ih | rightParen _ ih =>
    intro l member
    rcases List.mem_cons.1 member with rfl | later
    · simp [Grammar.lexemes, Lexeme.kind]
    · exact ih l later

theorem fitsTail (fits : Grammar.Fits Grammar.lexemes expected depth (l :: rest)) :
    ∃ after, Grammar.Fits Grammar.lexemes l.kind.expectedNext after rest := by
  cases fits with
  | number value next => exact ⟨depth, next⟩
  | name text next => exact ⟨depth, next⟩
  | leftParen next => exact ⟨depth + 1, next⟩
  | operator op next => exact ⟨depth, next⟩
  | rightParen next => exact ⟨_, next⟩

/- At the start, and after an open parenthesis or an operator, an operand begins: no operator stands for a
sign and no parentheses are empty. -/
def OperandsBegin (lexemes : List Lexeme) : Prop :=
  ∀ front next back, lexemes = front ++ next :: back →
    (∀ l, front.getLast? = some l → l.kind.endsOperand = false) → next.kind.beginsOperand = true

theorem fitsOperandsBegin {front back : List Lexeme} {next : Lexeme}
    (fits : Grammar.Fits Grammar.lexemes expected depth (front ++ next :: back))
    (start : front = [] → expected = .operand)
    (before : ∀ l, front.getLast? = some l → l.kind.endsOperand = false) :
    next.kind.beginsOperand = true := by
  induction front generalizing expected depth with
  | nil =>
    have due := start rfl
    subst due
    obtain ⟨_, found, begins⟩ := fitsHead fits
    cases found
    exact begins
  | cons l front ih =>
    obtain ⟨after, tail⟩ := fitsTail fits
    refine ih tail ?_ ?_
    · intro same
      subst same
      simp [Kind.expectedNext, before l rfl]
    · intro m found
      exact before m (by rw [List.getLast?_cons, found]; rfl)

theorem builtIffDerivable (naming : Naming) (text : String) :
    ((∃ f, Formula.ofTextWith naming text = .ok f) ↔
      Grammar.Derives Grammar.lexemes (lexemesOf text) ∧
      (∀ n, .number n ∈ lexemesOf text → ∃ x, n.value? = some x ∧ x.isFinite = true) ∧
      ∀ raw, .name raw ∈ lexemesOf text →
        isName (naming.rename raw) = true ∧ naming.admits (naming.rename raw) = true) ∧
    ∀ f, Formula.ofTextWith naming text = .ok f →
      lexemesOf text ≠ [] ∧ (∀ l ∈ lexemesOf text, l.kind ≠ .stray) ∧ OperandsBegin (lexemesOf text) ∧
      List.Forall₂ (Lexeme.Becomes naming) (lexemesOf text) f.tokens ∧
      f.names.Nodup ∧ ∀ name, name ∈ f.names ↔ .name name ∈ f.tokens := by
  simp only [Grammar.derivesIffFits, ofTextOk]
  constructor
  · constructor
    · intro given
      obtain ⟨f, fits, becomes, _⟩ := given
      have each := becomesEach.1 ⟨f.tokens, becomes⟩
      exact ⟨fits, fun n member => becomesNumber.1 (each _ member),
        fun raw member => (becomesName (Scan.nameShape member)).1 (each _ member)⟩
    · intro given
      obtain ⟨fits, numbers, names⟩ := given
      have each : ∀ l ∈ lexemesOf text, ∃ t, l.Becomes naming t := by
        intro l member
        cases l with
        | leftParen => exact ⟨_, .leftParen⟩
        | rightParen => exact ⟨_, .rightParen⟩
        | operator op => exact ⟨_, .operator op⟩
        | name raw => exact (becomesName (Scan.nameShape member)).2 (names raw member)
        | number n => exact becomesNumber.2 (numbers n member)
        | stray text => exact absurd rfl (fitsNotStray fits _ member)
      obtain ⟨tokens, becomes⟩ := becomesEach.2 each
      exact ⟨.ofTokens tokens, fits, becomes, rfl⟩
  · intro f given
    obtain ⟨fits, becomes, settled⟩ := given
    refine ⟨?_, fitsNotStray fits, ?_, becomes, f.variableSet.nodup, fun name => memNames settled⟩
    · intro none
      rw [none] at fits
      cases fits
    · intro front next back same before
      rw [same] at fits
      exact fitsOperandsBegin fits (fun _ => rfl) before

end ArithmeticFormula
