import ArithmeticFormula.Proofs.Formula.Walks

/-! Where a build stops: at once, for the text as a whole, at the first lexeme that is refused, or at the
end with parentheses open. Main statement: a text fails to build with a fault exactly if its build stops
somewhere with that fault. -/
namespace ArithmeticFormula

structure Framed (lexemes : List Lexeme) : Prop where
  begins : ∃ l, lexemes.head? = some l ∧ l.kind.beginsOperand = true
  ends : ∃ l, lexemes.getLast? = some l ∧ l.kind.endsOperand = true

inductive StopsAtOnce (text : String) : FormatFault → Prop where
  | empty (nothing : text = "") : StopsAtOnce text .empty
  | noTokens (written : text ≠ "") (nothing : lexemesOf text = []) : StopsAtOnce text .noTokens
  | start {first : Lexeme} (head : (lexemesOf text).head? = some first)
      (refused : first.kind.beginsOperand = false) : StopsAtOnce text (.invalidStart first.text)
  | ending {first last : Lexeme} (head : (lexemesOf text).head? = some first)
      (begins : first.kind.beginsOperand = true) (final : (lexemesOf text).getLast? = some last)
      (refused : last.kind.endsOperand = false) : StopsAtOnce text (.invalidEnd last.text)

inductive StopsAt (naming : Naming) (text : String) : Nat → FormatFault → Prop where
  | atOnce {fault : FormatFault} (stops : StopsAtOnce text fault) : StopsAt naming text 0 fault
  | within {front back : List Lexeme} {l : Lexeme} {place : Place} {tokens : List Token}
      {fault : FormatFault} (framed : Framed (lexemesOf text)) (parts : lexemesOf text = front ++ l :: back)
      (walked : Walks naming .start front place tokens) (refused : place.Refuses naming l fault) :
      StopsAt naming text front.length fault
  | unclosed {place : Place} {tokens : List Token} (framed : Framed (lexemesOf text))
      (walked : Walks naming .start (lexemesOf text) place tokens) (opened : place.depth ≠ 0) :
      StopsAt naming text (lexemesOf text).length (.unclosed place.depth)

variable {naming : Naming} {l : Lexeme} {lexemes front back : List Lexeme} {fault other : FormatFault}
variable {text : String} {p q : Nat}

theorem ofLexemesFramed (framed : Framed lexemes) :
    Formula.ofLexemes naming lexemes = (Formula.tokensFrom naming .start .empty lexemes).map .ofRead := by
  obtain ⟨⟨first, head, begins⟩, ⟨final, atEnd, ends⟩⟩ := framed
  simp only [Formula.ofLexemes, head, atEnd, begins, ends]
  rfl

theorem headWritten (head : (lexemesOf text).head? = some l) : text ≠ "" := by
  rintro rfl
  have nothing : lexemesOf "" = [] := Scan.lexemesOfNone rfl
  rw [nothing] at head
  cases head

theorem ofTextWritten (written : text ≠ "") :
    Formula.ofTextWith naming text = Formula.ofLexemes naming (lexemesOf text) :=
  if_neg (by simpa [String.isEmpty_iff] using written)

theorem ofTextFramed (framed : Framed (lexemesOf text)) : Formula.ofTextWith naming text =
    (Formula.tokensFrom naming .start .empty (lexemesOf text)).map .ofRead := by
  obtain ⟨first, head, _⟩ := framed.begins
  rw [ofTextWritten (headWritten head), ofLexemesFramed framed]

theorem atOnceOrFramed (text : String) : (∃ fault, StopsAtOnce text fault) ∨ Framed (lexemesOf text) := by
  by_cases nothing : text = ""
  · exact .inl ⟨_, .empty nothing⟩
  · cases head : (lexemesOf text).head? with
    | none => exact .inl ⟨_, .noTokens nothing (List.head?_eq_none_iff.1 head)⟩
    | some first =>
      cases begins : first.kind.beginsOperand with
      | false => exact .inl ⟨_, .start head begins⟩
      | true =>
        cases final : (lexemesOf text).getLast? with
        | none => simp [List.getLast?_eq_none_iff.1 final] at head
        | some last =>
          cases ends : last.kind.endsOperand with
          | false => exact .inl ⟨_, .ending head begins final ends⟩
          | true => exact .inr ⟨⟨first, head, begins⟩, ⟨last, final, ends⟩⟩

theorem ofTextAtOnce (stops : StopsAtOnce text fault) : Formula.ofTextWith naming text = .error fault := by
  cases stops with
  | empty nothing =>
    subst nothing
    rfl
  | noTokens written nothing =>
    rw [ofTextWritten written, nothing]
    rfl
  | start head refused =>
    obtain ⟨final, atEnd⟩ : ∃ final, (lexemesOf text).getLast? = some final := by
      cases lexemes : lexemesOf text with
      | nil => simp [lexemes] at head
      | cons l rest => exact ⟨_, List.getLast?_cons⟩
    rw [ofTextWritten (headWritten head)]
    simp only [Formula.ofLexemes, head, atEnd, refused]
    rfl
  | ending head begins final refused =>
    rw [ofTextWritten (headWritten head)]
    simp only [Formula.ofLexemes, head, final, begins, refused]
    rfl

theorem framedNotAtOnce (framed : Framed (lexemesOf text)) (stops : StopsAtOnce text fault) : False := by
  obtain ⟨⟨first, head, begins⟩, ⟨final, atEnd, ends⟩⟩ := framed
  cases stops with
  | empty nothing => exact headWritten head nothing
  | noTokens written nothing =>
    rw [nothing] at head
    cases head
  | start found refused =>
    cases found.symm.trans head
    rw [begins] at refused
    cases refused
  | ending _ _ found refused =>
    cases found.symm.trans atEnd
    rw [ends] at refused
    cases refused

theorem ofTextError : Formula.ofTextWith naming text = .error fault ↔ ∃ p, StopsAt naming text p fault := by
  refine ⟨fun failed => ?_, fun stopped => ?_⟩
  · obtain ⟨other, stops⟩ | framed := atOnceOrFramed text
    · rw [ofTextAtOnce stops] at failed
      exact ⟨0, .atOnce (Except.error.inj failed ▸ stops)⟩
    · rw [ofTextFramed framed, Outcome.mapError, tokensFromError] at failed
      obtain ⟨front, l, back, last, tokens, parts, walked, refused⟩ | ⟨last, tokens, walked, opened, rfl⟩ :=
        failed
      · exact ⟨front.length, .within framed parts walked refused⟩
      · exact ⟨_, .unclosed framed walked opened⟩
  · obtain ⟨p, stopped⟩ := stopped
    cases stopped with
    | atOnce stops => exact ofTextAtOnce stops
    | within framed parts walked refused =>
      rw [ofTextFramed framed, Outcome.mapError, tokensFromError]
      exact .inl ⟨_, _, _, _, _, parts, walked, refused⟩
    | unclosed framed walked opened =>
      rw [ofTextFramed framed, Outcome.mapError, tokensFromError]
      exact .inr ⟨_, _, walked, opened, rfl⟩

theorem shapeAt (parts : lexemesOf text = front ++ l :: back) :
    ∀ raw, l = .name raw → isName raw = true := by
  rintro raw rfl
  have member : .name raw ∈ Scan.lexemes text.toList := by
    rw [← lexemesOf, parts]
    exact List.mem_append_right _ List.mem_cons_self
  exact Scan.nameShape member

theorem builtWalked {f : Formula} (built : Formula.ofTextWith naming text = .ok f) :
    Framed (lexemesOf text) ∧ ∃ place tokens, Walks naming .start (lexemesOf text) place tokens := by
  obtain ⟨fault, stops⟩ | framed := atOnceOrFramed text
  · cases (ofTextAtOnce stops).symm.trans built
  · refine ⟨framed, ?_⟩
    obtain walked | ⟨_, _, _, _, _, fault, parts, walked, refused⟩ := walkEnds naming .start (lexemesOf text)
    · exact walked
    · cases (ofTextError.2 ⟨_, .within framed parts walked refused⟩).symm.trans built

theorem stopWalked (stops : StopsAt naming text p fault) (later : 0 < p) : Framed (lexemesOf text) ∧
    ∃ front back place tokens, lexemesOf text = front ++ back ∧ front.length = p ∧
      Walks naming .start front place tokens := by
  cases stops with
  | atOnce stops => exact absurd later (Nat.lt_irrefl 0)
  | within framed parts walked refused => exact ⟨framed, _, _, _, _, parts, rfl, walked⟩
  | unclosed framed walked opened => exact ⟨framed, _, [], _, _, (List.append_nil _).symm, rfl, walked⟩

theorem walkedPast (parts : lexemesOf text = front ++ l :: back)
    (past : (∃ f, Formula.ofTextWith naming text = .ok f) ∨
      ∃ p fault, StopsAt naming text p fault ∧ front.length < p) :
    Framed (lexemesOf text) ∧ ∃ place before after t, Walks naming .start front place before ∧
      place.checkNeighbour l = .ok () ∧ place.depthAfter l = .ok after ∧ l.Becomes naming t := by
  obtain ⟨f, built⟩ | ⟨p, fault, stops, within⟩ := past
  · obtain ⟨framed, place, tokens, walked⟩ := builtWalked built
    rw [parts] at walked
    exact ⟨framed, walkSplit walked⟩
  · obtain ⟨framed, longer, after, place, tokens, same, rfl, walked⟩ := stopWalked stops (by omega)
    rw [parts, List.append_eq_append_iff] at same
    obtain ⟨more, rfl, rest⟩ | ⟨more, rfl, _⟩ := same
    · cases more with
      | nil => simp at within
      | cons m more =>
        cases rest
        exact ⟨framed, walkSplit walked⟩
    · simp at within

theorem stopsNoLater (stops : StopsAt naming text p fault) (again : StopsAt naming text q other) : q ≤ p := by
  -- a later stop would have walked past the lexeme that the earlier one refuses
  by_contra beyond
  obtain ⟨framed, longer, rest, _, _, whole, rfl, _⟩ := stopWalked again (by omega)
  cases stops with
  | atOnce stops => exact framedNotAtOnce framed stops
  | within _ parts walked refused =>
    obtain ⟨_, place, before, after, t, onward, checked, opens, becomes⟩ :=
      walkedPast parts (.inr ⟨_, other, again, by omega⟩)
    cases walkUnique walked onward
    exact refusedNotPassed refused checked opens becomes
  | unclosed =>
    have bound := congrArg List.length whole
    rw [List.length_append] at bound
    omega

theorem stopsUnique (stops : StopsAt naming text p fault) (again : StopsAt naming text q other) :
    p = q ∧ fault = other :=
  ⟨Nat.le_antisymm (stopsNoLater again stops) (stopsNoLater stops again),
    Except.error.inj ((ofTextError.2 ⟨p, stops⟩).symm.trans (ofTextError.2 ⟨q, again⟩))⟩

end ArithmeticFormula
