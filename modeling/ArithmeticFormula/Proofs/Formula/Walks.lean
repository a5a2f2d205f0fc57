import ArithmeticFormula.Proofs.Formula.Accepted

/-! The way through the lexemes. A step is taken if the lexeme may follow the one before it, keeps the
parentheses counted and becomes a token. A walk of such steps goes to the end or is cut short by a refusal;
what it passed fits one another as the grammar wants, whatever comes next. -/
namespace ArithmeticFormula

inductive Walks (naming : Naming) : Place → List Lexeme → Place → List Token → Prop where
  | done {place : Place} : Walks naming place [] place []
  | next {place last : Place} {l : Lexeme} {front : List Lexeme} {t : Token} {tokens : List Token}
      {after : Nat} (checked : place.checkNeighbour l = .ok ()) (opens : place.depthAfter l = .ok after)
      (becomes : l.Becomes naming t)
      (later : Walks naming ⟨place.position + 1, after, some l⟩ front last tokens) :
      Walks naming place (l :: front) last (t :: tokens)

/- The three checks, each made only after the ones before it. -/
inductive Place.Refuses (naming : Naming) (place : Place) (l : Lexeme) : FormatFault → Prop where
  | neighbour {fault : FormatFault} (refused : place.checkNeighbour l = .error fault) :
      Refuses naming place l fault
  | depth {fault : FormatFault} (checked : place.checkNeighbour l = .ok ())
      (refused : place.depthAfter l = .error fault) : Refuses naming place l fault
  | token {fault : FormatFault} {after : Nat} (checked : place.checkNeighbour l = .ok ())
      (opens : place.depthAfter l = .ok after) (refused : l.toToken naming = .error fault) :
      Refuses naming place l fault

variable {naming : Naming} {place last : Place} {l : Lexeme} {front rest lexemes : List Lexeme}
variable {t : Token} {tokens : List Token} {fault : FormatFault} {expected : Expected} {depth : Nat}
variable {known : TextSet}

theorem enterError : l.enter naming known = .error fault ↔ l.toToken naming = .error fault := by
  rw [enterNotes, Outcome.mapError]

theorem enterBecomes (becomes : l.Becomes naming t) : l.enter naming known = .ok (t, known.noting t) := by
  rw [enterNotes, toTokenOk.2 becomes]
  rfl

theorem tokensFromWalk (walked : Walks naming place front last tokens) (rest : List Lexeme) :
    Formula.tokensFrom naming place known (front ++ rest) =
      (Formula.tokensFrom naming last (tokens.foldl TextSet.noting known) rest).map fun read =>
        (tokens ++ read.1, read.2) := by
  induction walked generalizing known with
  | done =>
    rw [List.nil_append, List.foldl_nil]
    cases Formula.tokensFrom naming _ known rest <;> rfl
  | @next place last l front t tokens after checked opens becomes later ih =>
    rw [List.cons_append, List.foldl_cons, Formula.tokensFrom, checked, Outcome.okBind, opens, Outcome.okBind,
      enterBecomes becomes, Outcome.okBind]
    simp only [ih]
    cases Formula.tokensFrom naming last _ rest <;> rfl

theorem tokensFromRefused (refused : place.Refuses naming l fault) (rest : List Lexeme) :
    Formula.tokensFrom naming place known (l :: rest) = .error fault := by
  rw [Formula.tokensFrom]
  cases refused with
  | neighbour refused => rw [refused]; rfl
  | depth checked refused => rw [checked, Outcome.okBind, refused]; rfl
  | token checked opens refused =>
    rw [checked, Outcome.okBind, opens, Outcome.okBind, enterError.2 refused]
    rfl

theorem walkOrRefused (naming : Naming) (place : Place) (l : Lexeme) :
    (∃ fault, place.Refuses naming l fault) ∨
      ∃ after t, place.checkNeighbour l = .ok () ∧ place.depthAfter l = .ok after ∧
        l.Becomes naming t := by
  cases checked : place.checkNeighbour l with
  | error fault => exact .inl ⟨fault, .neighbour checked⟩
  | ok _ =>
    cases opens : place.depthAfter l with
    | error fault => exact .inl ⟨fault, .depth checked opens⟩
    | ok after =>
      cases read : l.toToken naming with
      | error fault => exact .inl ⟨fault, .token checked opens read⟩
      | ok t => exact .inr ⟨after, t, rfl, rfl, toTokenOk.1 read⟩

theorem walkEnds (naming : Naming) (place : Place) (lexemes : List Lexeme) :
    (∃ last tokens, Walks naming place lexemes last tokens) ∨
      ∃ front l back last tokens fault, lexemes = front ++ l :: back ∧
        Walks naming place front last tokens ∧ last.Refuses naming l fault := by
  induction lexemes generalizing place with
  | nil => exact .inl ⟨place, [], .done⟩
  | cons l rest ih =>
    obtain ⟨fault, refused⟩ | ⟨after, t, checked, opens, becomes⟩ := walkOrRefused naming place l
    · exact .inr ⟨[], l, rest, place, [], fault, rfl, .done, refused⟩
    · obtain ⟨last, tokens, walked⟩ | ⟨front, m, back, last, tokens, fault, rfl, walked, refused⟩ :=
        ih ⟨place.position + 1, after, some l⟩
      · exact .inl ⟨last, t :: tokens, .next checked opens becomes walked⟩
      · exact .inr ⟨l :: front, m, back, last, t :: tokens, fault, rfl,
          .next checked opens becomes walked, refused⟩

theorem walkUnique {other : Place} {others : List Token} (walked : Walks naming place front last tokens)
    (again : Walks naming place front other others) : other = last := by
  induction walked generalizing others with
  | done =>
    cases again
    rfl
  | next checked opens becomes later ih =>
    cases again with
    | next _ opened _ onward =>
      cases opens.symm.trans opened
      exact ih onward

theorem walkSplit (walked : Walks naming place (front ++ l :: rest) last tokens) :
    ∃ there before after t, Walks naming place front there before ∧ there.checkNeighbour l = .ok () ∧
      there.depthAfter l = .ok after ∧ l.Becomes naming t := by
  induction front generalizing place tokens with
  | nil =>
    cases walked with
    | next checked opens becomes _ => exact ⟨place, [], _, _, .done, checked, opens, becomes⟩
  | cons m front ih =>
    cases walked with
    | next checked opens becomes later =>
      obtain ⟨there, before, after, t, onward, passed⟩ := ih later
      exact ⟨there, _, after, t, .next checked opens becomes onward, passed⟩

theorem refusedNotPassed {after : Nat} (refused : place.Refuses naming l fault)
    (checked : place.checkNeighbour l = .ok ()) (opens : place.depthAfter l = .ok after)
    (becomes : l.Becomes naming t) : False := by
  cases refused with
  | neighbour refused => cases refused.symm.trans checked
  | depth _ refused => cases refused.symm.trans opens
  | token _ _ refused => cases refused.symm.trans (toTokenOk.2 becomes)

theorem tokensFromEnd (walked : Walks naming place lexemes last tokens) :
    Formula.tokensFrom naming place known lexemes =
      if last.depth = 0 then .ok (tokens, tokens.foldl TextSet.noting known)
      else .error (.unclosed last.depth) := by
  have read := @tokensFromWalk _ _ _ _ _ known walked []
  rw [List.append_nil] at read
  rw [read, Formula.tokensFrom]
  split
  · simp [Except.map]
  · rfl

theorem tokensFromError : Formula.tokensFrom naming place known lexemes = .error fault ↔
    (∃ front l back last tokens, lexemes = front ++ l :: back ∧
      Walks naming place front last tokens ∧ last.Refuses naming l fault) ∨
    ∃ last tokens, Walks naming place lexemes last tokens ∧ last.depth ≠ 0 ∧
      fault = .unclosed last.depth := by
  refine ⟨fun failed => ?_, fun stopped => ?_⟩
  · obtain ⟨last, tokens, walked⟩ | ⟨front, l, back, last, tokens, other, parts, walked, refused⟩ :=
      walkEnds naming place lexemes
    · rw [tokensFromEnd walked] at failed
      split at failed
      · cases failed
      · rename_i opened
        exact .inr ⟨last, tokens, walked, opened, (Except.error.inj failed).symm⟩
    · rw [parts, tokensFromWalk walked, tokensFromRefused refused] at failed
      exact .inl ⟨front, l, back, last, tokens, parts, walked, Except.error.inj failed ▸ refused⟩
  · obtain ⟨front, l, back, last, tokens, rfl, walked, refused⟩ | ⟨last, tokens, walked, opened, rfl⟩ :=
      stopped
    · rw [tokensFromWalk walked, tokensFromRefused refused]
      rfl
    · rw [tokensFromEnd walked, if_neg opened]

theorem checkNeighbourError (refused : place.checkNeighbour l = .error fault) :
    ∃ previous, place.previous = some previous ∧ previous.kind ≠ .stray ∧ l.kind ≠ .stray ∧
      l.kind.meets previous.kind.expectedNext = false ∧
      fault = .unexpectedToken l.text previous.text place.position previous.kind.expectedNext := by
  unfold Place.checkNeighbour at refused
  cases found : place.previous with
  | none =>
    rw [found] at refused
    cases refused
  | some previous =>
    rw [found] at refused
    simp only at refused
    split at refused
    · cases refused
    · rename_i apart
      simp only [Kind.admitsNext, Bool.or_eq_true, beq_iff_eq, not_or, Bool.not_eq_true] at apart
      exact ⟨previous, rfl, apart.1.1, apart.1.2, apart.2, (Except.error.inj refused).symm⟩

theorem depthAfterError (refused : place.depthAfter l = .error fault) :
    l = .rightParen ∧ place.depth = 0 ∧ fault = .unmatchedClose place.position := by
  obtain ⟨position, depth, previous⟩ := place
  cases l with
  | rightParen =>
    cases depth with
    | zero => exact ⟨rfl, rfl, (Except.error.inj refused).symm⟩
    | succ depth => cases refused
  | leftParen | operator | name | number | stray => cases refused

theorem depthAfterCount {after : Nat} (opens : place.depthAfter l = .ok after) :
    after + [l].count .rightParen = place.depth + [l].count .leftParen := by
  obtain ⟨position, depth, previous⟩ := place
  cases l with
  | leftParen => cases opens; simp
  | rightParen =>
    cases depth with
    | zero => cases opens
    | succ depth => cases opens; simp
  | operator | name | number | stray => cases opens; simp

theorem walkPlace (walked : Walks naming place front last tokens) :
    last.position = place.position + front.length ∧
      last.previous = front.getLast?.or place.previous ∧
      last.depth + front.count .rightParen = place.depth + front.count .leftParen := by
  induction walked with
  | done => simp
  | @next place last l front t tokens after checked opens becomes later ih =>
    obtain ⟨position, previous, depth⟩ := ih
    have count := depthAfterCount opens
    refine ⟨?_, ?_, ?_⟩
    · simp only [position, List.length_cons]
      omega
    · rw [previous, List.getLast?_cons]
      cases front.getLast? <;> rfl
    · rw [← List.singleton_append, List.count_append, List.count_append]
      simp only at depth
      omega

theorem walkBecomes (walked : Walks naming place front last tokens) :
    List.Forall₂ (Lexeme.Becomes naming) front tokens := by
  induction walked with
  | done => exact .nil
  | next _ _ becomes _ ih => exact .cons becomes ih

theorem walkKnown (walked : Walks naming place front last tokens) : ∀ l ∈ front, l.kind ≠ .stray := by
  induction walked with
  | done => simp
  | next _ _ becomes _ ih => exact List.forall_mem_cons.2 ⟨becomesNotStray becomes, ih⟩

theorem fitsMeets (fits : Grammar.Fits Grammar.lexemes expected depth (l :: rest)) :
    l.kind.meets expected = true := by
  cases fits <;> rfl

theorem fitsStep {after : Nat} (opens : place.depthAfter l = .ok after)
    (fits : Grammar.Fits Grammar.lexemes expected place.depth (l :: rest)) :
    Grammar.Fits Grammar.lexemes l.kind.expectedNext after rest := by
  obtain ⟨position, depth, previous⟩ := place
  cases fits with
  | number _ next | name _ next | operator _ next | leftParen next => cases opens; exact next
  | rightParen next => cases opens; exact next

theorem fitsAfterWalk (walked : Walks naming place front last tokens)
    (fits : Grammar.Fits Grammar.lexemes place.due place.depth (front ++ rest)) :
    Grammar.Fits Grammar.lexemes last.due last.depth rest := by
  induction walked with
  | done => exact fits
  | next checked opens becomes later ih => exact ih (fitsStep opens fits)

theorem fitsBeforeWalk (walked : Walks naming place front last tokens)
    (settled : ∀ previous, place.previous = some previous → previous.kind ≠ .stray)
    (begins : place.previous = none → ∀ l, front.head? = some l → l.kind.beginsOperand = true)
    (fits : Grammar.Fits Grammar.lexemes last.due last.depth rest) :
    Grammar.Fits Grammar.lexemes place.due place.depth (front ++ rest) := by
  induction walked with
  | done => exact fits
  | @next place last l front t tokens after checked opens becomes later ih =>
    have known := becomesNotStray becomes
    have tail := ih (fun previous found => Option.some.inj found ▸ known) (fun start => nomatch start) fits
    exact fitsCons (meetsDue checked known settled fun start => begins start l rfl) opens tail

end ArithmeticFormula
