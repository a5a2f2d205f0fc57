import ArithmeticFormula.Proofs.Formula.Stops

/-! The fault of a build is the first one there is. Where a build stops, the lexemes before can still be
carried on to a formula, and with the lexeme there they no longer can, whatever follows. Main statement: that
place is the only one of this kind, and the fault says what is wrong with the lexeme there. -/
namespace ArithmeticFormula

def Viable (naming : Naming) (front : List Lexeme) : Prop :=
  ∃ more f, Formula.ofLexemes naming (front ++ more) = .ok f

def Follows (front : List Lexeme) (l : Lexeme) : Prop :=
  ∀ previous, front.getLast? = some previous → l.kind.meets previous.kind.expectedNext = true

/- What a fault says of a lexeme and of those before it. All but a stray lexeme is first judged by its
neighbour. -/
inductive Located (naming : Naming) (front : List Lexeme) (l : Lexeme) : FormatFault → Prop where
  | unrecognized (stray : l.kind = .stray) : Located naming front l (.unrecognized l.text)
  | unexpected {earlier : List Lexeme} {previous : Lexeme} (before : front = earlier ++ [previous])
      (known : l.kind ≠ .stray) (refused : l.kind.meets previous.kind.expectedNext = false) :
      Located naming front l
        (.unexpectedToken l.text previous.text front.length previous.kind.expectedNext)
  | unmatched (follows : Follows front l) (closes : l = .rightParen)
      (even : front.count .leftParen = front.count .rightParen) :
      Located naming front l (.unmatchedClose front.length)
  | number {numeral : Numeral} (follows : Follows front l) (written : l = .number numeral)
      (unread : numeral.value? = none) : Located naming front l (.invalidNumber l.text)
  | normalized {raw : String} (follows : Follows front l) (written : l = .name raw)
      (shapeless : isName (naming.rename raw) = false) :
      Located naming front l (.invalidNormalizedVariable l.text (naming.rename raw))
  | rejected {raw : String} (follows : Follows front l) (written : l = .name raw)
      (shape : isName (naming.rename raw) = true) (refused : naming.admits (naming.rename raw) = false) :
      Located naming front l (.rejectedVariable (naming.rename raw))

variable {naming : Naming} {last : Place} {l : Lexeme} {front : List Lexeme} {tokens : List Token}
variable {fault : FormatFault} {text : String}

def completion : Expected → Nat → List Char
  | .operand, depth => '0' :: List.replicate depth ')'
  | .operatorOrClose, depth => List.replicate depth ')'

def closing (depth : Nat) : List Lexeme := List.replicate depth .rightParen

theorem scanClosing (depth : Nat) : Scan.lexemes (List.replicate depth ')') = closing depth := by
  induction depth with
  | zero => exact Scan.lexemesOfNone rfl
  | succ depth ih =>
    rw [List.replicate_succ, Scan.lexemesOfSome (Scan.nextMark rfl), ih]
    rfl

def zeroNumeral : Numeral := ⟨['0'], none, none⟩

theorem scanZero (depth : Nat) : Scan.lexemes ('0' :: List.replicate depth ')') =
    .number zeroNumeral :: closing depth := by
  have positional : zeroNumeral.Positional :=
    ⟨by simp [zeroNumeral], List.cons_ne_nil _ _, fun _ absent => (nomatch absent), rfl⟩
  have delimits : Scan.Delimits (List.replicate depth ')') := by
    cases depth with
    | zero => exact Scan.delimitsNil
    | succ depth =>
      have read : Lexeme.mark? ')' = some .rightParen := rfl
      exact Scan.delimitsMark read
  rw [← scanClosing depth]
  exact Scan.lexemesOfSome (Scan.nextNumeral (Numeral.positionalWellFormed positional) delimits)

theorem closingFits (depth : Nat) :
    Grammar.Fits Grammar.lexemes .operatorOrClose depth (closing depth) ∧
      ∃ tokens, List.Forall₂ (Lexeme.Becomes naming) (closing depth) tokens := by
  induction depth with
  | zero => exact ⟨.done, [], .nil⟩
  | succ depth ih =>
    obtain ⟨fits, tokens, becomes⟩ := ih
    exact ⟨.rightParen fits, .rightParen :: tokens, .cons .rightParen becomes⟩

theorem completionFits (expected : Expected) (depth : Nat) :
    Grammar.Fits Grammar.lexemes expected depth (Scan.lexemes (completion expected depth)) ∧
      ∃ tokens, List.Forall₂ (Lexeme.Becomes naming) (Scan.lexemes (completion expected depth)) tokens := by
  obtain ⟨fits, tokens, becomes⟩ := @closingFits naming depth
  cases expected with
  | operand =>
    have value : zeroNumeral.value? = some .zero := rfl
    rw [completion, scanZero]
    exact ⟨.number zeroNumeral fits, .number .zero :: tokens, .cons (.number value) becomes⟩
  | operatorOrClose =>
    rw [completion, scanClosing]
    exact ⟨fits, tokens, becomes⟩

theorem walkedCompletes (walked : Walks naming .start front last tokens)
    (begins : ∀ l, front.head? = some l → l.kind.beginsOperand = true) :
    ∃ ending f, Formula.ofLexemes naming (front ++ lexemesOf ending) = .ok f := by
  obtain ⟨fits, later, becomes⟩ := @completionFits naming last.due last.depth
  have scanned : lexemesOf (String.ofList (completion last.due last.depth)) =
      Scan.lexemes (completion last.due last.depth) := by
    rw [lexemesOf, String.toList_ofList]
  refine ⟨String.ofList (completion last.due last.depth), .ofTokens (tokens ++ later), ?_⟩
  rw [scanned, ofLexemesOk]
  exact ⟨fitsBeforeWalk walked (fun l found => absurd found (startFirst l)) (fun _ => begins) fits,
    List.rel_append (walkBecomes walked) becomes, rfl⟩

theorem acceptedFits (accepted : Formula.ofLexemes naming (front ++ rest) = .ok f)
    (walked : Walks naming .start front last tokens) :
    Grammar.Fits Grammar.lexemes last.due last.depth rest :=
  fitsAfterWalk walked (ofLexemesOk.1 accepted).1

theorem refusedNotAccepted (walked : Walks naming .start front last tokens)
    (refused : last.Refuses naming l fault) (more : List Lexeme) (f : Formula) :
    Formula.ofLexemes naming (front ++ l :: more) ≠ .ok f := by
  intro accepted
  have fits := acceptedFits accepted walked
  cases refused with
  | neighbour refused =>
    obtain ⟨previous, found, _, _, apart, _⟩ := checkNeighbourError refused
    have meets := fitsMeets fits
    rw [Place.due, found, Option.elim_some, apart] at meets
    cases meets
  | depth checked refused =>
    obtain ⟨rfl, none, _⟩ := depthAfterError refused
    rw [none] at fits
    generalize last.due = due at fits
    cases fits
  | token checked opens refused =>
    have each := becomesEach.1 ⟨f.tokens, (ofLexemesOk.1 accepted).2.1⟩
    obtain ⟨t, becomes⟩ := each l (List.mem_append_right _ List.mem_cons_self)
    rw [toTokenOk.2 becomes] at refused
    cases refused

theorem viableTake (completes : ∃ more f, Formula.ofLexemes naming (front ++ more) = .ok f)
    (never : ∀ more f, Formula.ofLexemes naming (front ++ l :: more) ≠ .ok f) (back : List Lexeme)
    (n : Nat) : Viable naming ((front ++ l :: back).take n) ↔ n ≤ front.length := by
  refine ⟨fun viable => ?_, fun within => ?_⟩
  · -- what goes beyond holds the refused lexeme
    by_contra beyond
    obtain ⟨past, rfl⟩ : ∃ past, n = front.length + (past + 1) := ⟨n - front.length - 1, by omega⟩
    obtain ⟨more, f, accepted⟩ := viable
    rw [List.take_length_add_append, List.take_succ_cons, List.append_assoc, List.cons_append] at accepted
    exact never _ f accepted
  · obtain ⟨more, f, accepted⟩ := completes
    refine ⟨front.drop n ++ more, f, ?_⟩
    rwa [List.take_append_of_le_length within, ← List.append_assoc, List.take_append_drop]

theorem walkFollows (walked : Walks naming .start front last tokens)
    (checked : last.checkNeighbour l = .ok ()) (known : l.kind ≠ .stray) : Follows front l := by
  intro previous before
  have found := (walkPlace walked).2.1
  rw [before] at found
  have admitted := checkNeighbourOk.1 checked previous found
  have settled := walkKnown walked previous (List.mem_of_getLast? before)
  simpa [Kind.admitsNext, known, settled] using admitted

theorem tokenLocated (rawShape : ∀ raw, l = .name raw → isName raw = true)
    (follows : l.kind ≠ .stray → Follows front l) (refused : l.toToken naming = .error fault) :
    Located naming front l fault := by
  cases l with
  | name raw =>
    have same : (Lexeme.name raw).text = raw := String.ofList_toList
    rw [toTokenName] at refused
    obtain ⟨untaken, rfl⟩ := (Naming.resolveError (rawShape raw rfl)).1 (Outcome.mapError.1 refused)
    have follows := follows (show Kind.name ≠ .stray by decide)
    cases shape : isName (naming.rename raw) with
    | false => simpa [Naming.refusal, shape, same] using Located.normalized follows rfl shape
    | true =>
      have apart : naming.admits (naming.rename raw) = false := by simpa [Naming.Takes, shape] using untaken
      simpa [Naming.refusal, shape] using Located.rejected follows rfl shape apart
  | number numeral =>
    rw [toTokenNumber] at refused
    cases value : numeral.value? with
    | none =>
      rw [value] at refused
      cases refused
      exact .number (follows (show Kind.number ≠ .stray by decide)) rfl value
    | some x =>
      rw [value] at refused
      cases refused
  | stray run =>
    have same : (Lexeme.stray run).text = run := String.ofList_toList
    have located : Located naming front (.stray run) (.unrecognized (Lexeme.stray run).text) :=
      .unrecognized rfl
    cases refused
    rwa [same] at located
  | leftParen | rightParen | operator => cases refused

theorem refusedLocated (walked : Walks naming .start front last tokens)
    (rawShape : ∀ raw, l = .name raw → isName raw = true) (refused : last.Refuses naming l fault) :
    Located naming front l fault := by
  obtain ⟨position, previous, depth⟩ := walkPlace walked
  cases refused with
  | neighbour refused =>
    obtain ⟨before, found, _, known, apart, rfl⟩ := checkNeighbourError refused
    obtain ⟨earlier, rfl⟩ : ∃ earlier, front = earlier ++ [before] := by
      rw [← List.getLast?_eq_some_iff]
      simpa [found, Place.start] using previous.symm
    have counted : last.position = (earlier ++ [before]).length := by rw [position, Place.start, Nat.zero_add]
    rw [counted]
    exact .unexpected rfl known apart
  | depth checked refused =>
    obtain ⟨rfl, none, rfl⟩ := depthAfterError refused
    have even : front.count .leftParen = front.count .rightParen := by
      simp only [none, Place.start] at depth
      omega
    have counted : last.position = front.length := by rw [position, Place.start, Nat.zero_add]
    rw [counted]
    exact .unmatched (walkFollows walked checked (nomatch ·)) rfl even
  | token checked opens refused => exact tokenLocated rawShape (walkFollows walked checked) refused

theorem locatedUnrecognized (located : Located naming front l fault) :
    (∃ token, fault = .unrecognized token) ↔ l.kind = .stray := by
  cases located with
  | unrecognized stray => exact ⟨fun _ => stray, fun _ => ⟨_, rfl⟩⟩
  | unexpected before known refused => exact ⟨fun given => by simp at given, fun stray => absurd stray known⟩
  | unmatched _ written | number _ written | normalized _ written | rejected _ written =>
    subst written
    simp [Lexeme.kind]

theorem locatedUnexpected (located : Located naming front l fault) :
    (∃ token previous position expected, fault = .unexpectedToken token previous position expected) ↔
      l.kind ≠ .stray ∧ ¬ Follows front l := by
  cases located with
  | unrecognized stray => simp [stray]
  | unexpected before known refused =>
    refine iff_of_true ⟨_, _, _, _, rfl⟩ ⟨known, fun follows => ?_⟩
    rw [follows _ (by rw [before, List.getLast?_concat])] at refused
    cases refused
  | unmatched follows | number follows | normalized follows | rejected follows => simp [follows]

theorem framedBegins {back : List Lexeme} (framed : Framed (lexemesOf text))
    (parts : lexemesOf text = front ++ back) :
    ∀ l, front.head? = some l → l.kind.beginsOperand = true := by
  intro l head
  obtain ⟨first, found, begins⟩ := framed.begins
  rw [parts, List.head?_append, head] at found
  cases found
  exact begins

theorem acceptedFollows {m : Lexeme} {more : List Lexeme} {f : Formula}
    (accepted : Formula.ofLexemes naming (front ++ m :: more) = .ok f)
    (walked : Walks naming .start front last tokens) : Follows front m := by
  intro previous before
  have meets := fitsMeets (acceptedFits accepted walked)
  rw [Place.due, (walkPlace walked).2.1, before] at meets
  exact meets

theorem firstFault (naming : Naming) {text : String} (framed : Framed (lexemesOf text)) :
    (∀ fault, Formula.ofTextWith naming text = .error fault ↔ ∃ p, StopsAt naming text p fault) ∧
    (∀ raw, Formula.ofTextWith naming text ≠ .error (.invalidVariable raw)) ∧
    ∀ p fault l, StopsAt naming text p fault → (lexemesOf text)[p]? = some l →
      (∃ ending f, Formula.ofLexemes naming ((lexemesOf text).take p ++ lexemesOf ending) = .ok f) ∧
      (∀ n, Viable naming ((lexemesOf text).take n) ↔ n ≤ p) ∧
      Located naming ((lexemesOf text).take p) l fault ∧
      ((∃ token, fault = .unrecognized token) ↔ l.kind = .stray) ∧
      ((∃ token previous position expected,
          fault = .unexpectedToken token previous position expected) ↔
        l.kind ≠ .stray ∧ ¬ Follows ((lexemesOf text).take p) l) ∧
      ∀ m more f, Formula.ofLexemes naming ((lexemesOf text).take p ++ m :: more) = .ok f →
        Follows ((lexemesOf text).take p) m := by
  refine ⟨fun fault => ofTextError, fun raw failed => ?_, fun p fault l stops found => ?_⟩
  · obtain ⟨p, stops⟩ := ofTextError.1 failed
    cases stops with
    | atOnce stops => exact framedNotAtOnce framed stops
    | within _ parts walked refused => cases refusedLocated walked (shapeAt parts) refused
  · cases stops with
    | atOnce stops => exact absurd stops (framedNotAtOnce framed)
    | unclosed _ walked opened => simp at found
    | @within front back _ place tokens _ _ parts walked refused =>
      rw [parts, List.getElem?_append_right (Nat.le_refl _), Nat.sub_self] at found
      obtain rfl := Option.some.inj found
      have never := refusedNotAccepted walked refused
      have located := refusedLocated walked (shapeAt parts) refused
      have before : (lexemesOf text).take front.length = front := by rw [parts, List.take_left]
      have begins := framedBegins framed parts
      obtain ⟨ending, f, accepted⟩ := walkedCompletes walked begins
      rw [before]
      refine ⟨⟨ending, f, accepted⟩, fun n => ?_, located, locatedUnrecognized located,
        locatedUnexpected located, fun m more f accepted => acceptedFollows accepted walked⟩
      rw [parts]
      exact viableTake ⟨_, f, accepted⟩ never back n

/- A name that is not admitted either stands next to a number. -/
theorem juxtapositionRefused : Framed (lexemesOf "(2 x") ∧
    Formula.ofTextWith (.ofRules .unchanged .none) "(2 x" =
      .error (.unexpectedToken "x" "2" 2 .operatorOrClose) ∧
    ∀ n, Viable (.ofRules .unchanged .none) ((lexemesOf "(2 x").take n) ↔ n ≤ 2 := by
  have chars : "(2 x".toList = ['(', '2', ' ', 'x'] := by decide
  have lexemes : lexemesOf "(2 x" = [.leftParen, .number ⟨['2'], none, none⟩, .name "x"] := by
    rw [lexemesOf, chars]
    iterate 3 rw [Scan.lexemesOfSome rfl]
    rw [Scan.lexemesOfNone rfl]
    rfl
  have value : (⟨['2'], none, none⟩ : Numeral).value? = some ⟨0x4000000000000000⟩ := by decide +kernel
  have framed : Framed (lexemesOf "(2 x") := by
    rw [lexemes]
    exact ⟨⟨_, rfl, rfl⟩, ⟨_, rfl, rfl⟩⟩
  have stops : StopsAt (.ofRules .unchanged .none) "(2 x" 2
      (.unexpectedToken "x" "2" 2 .operatorOrClose) :=
    .within framed lexemes (.next rfl rfl .leftParen (.next rfl rfl (.number value) .done)) (.neighbour rfl)
  have found : (lexemesOf "(2 x")[2]? = some (.name "x") := by rw [lexemes]; rfl
  have facts := firstFault (.ofRules .unchanged .none) framed
  exact ⟨framed, (facts.1 _).2 ⟨2, stops⟩, (facts.2.2 2 _ _ stops found).2.1⟩

end ArithmeticFormula
