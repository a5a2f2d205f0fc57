import ArithmeticFormula.Proofs.Formula.FirstFault
import ArithmeticFormula.Proofs.Lexeme.Divided

/-! Parentheses that are left open or close too much. A parenthesis written after a text adds one lexeme and
changes none, so the depth that a walk through the text ends with is the number of parentheses it lacks.
Main statement: a text with parentheses left open builds with exactly as many written after it, a text that
builds takes none, and where one closes too much the text before it builds. -/
namespace ArithmeticFormula

def withClosing (text : String) (count : Nat) : String := text ++ String.ofList (List.replicate count ')')

def textBefore (text : String) (count : Nat) : String :=
  let ahead := dropBlank ((Cursor.start text).after count).rest
  String.ofList (text.toList.take (text.toList.length - ahead.length))

variable {naming : Naming} {last : Place} {front back : List Lexeme} {tokens : List Token}
variable {text : String} {depth count : Nat} {f : Formula}

theorem lexemesWithClosing : lexemesOf (withClosing text count) = lexemesOf text ++ closing count := by
  have chars : (withClosing text count).toList = text.toList ++ List.replicate count ')' := by
    rw [withClosing, String.toList_append, String.toList_ofList]
  rw [lexemesOf, chars]
  cases count with
  | zero => rw [List.replicate_zero, List.append_nil]; exact (List.append_nil _).symm
  | succ count =>
    rw [List.replicate_succ, Scan.lexemesClose, scanClosing]
    rfl

theorem fitsClosing (fits : Grammar.Fits Grammar.lexemes .operatorOrClose depth (closing count)) :
    count = depth := by
  induction count generalizing depth with
  | zero =>
    cases fits
    rfl
  | succ count ih =>
    cases fits with
    | rightParen next => exact congrArg Nat.succ (ih next)

theorem ofTextLexemes :
    Formula.ofTextWith naming text = .ok f ↔ Formula.ofLexemes naming (lexemesOf text) = .ok f := by
  rw [ofTextOk, ofLexemesOk]

theorem walkedLacks (walked : Walks naming .start front last tokens)
    (begins : ∀ l, front.head? = some l → l.kind.beginsOperand = true) (due : last.due = .operatorOrClose)
    (count : Nat) : (∃ f, Formula.ofLexemes naming (front ++ closing count) = .ok f) ↔ count = last.depth := by
  constructor
  · rintro ⟨f, accepted⟩
    have fits := acceptedFits accepted walked
    rw [due] at fits
    exact fitsClosing fits
  · rintro rfl
    obtain ⟨fits, later, becomes⟩ := @closingFits naming last.depth
    rw [← due] at fits
    refine ⟨.ofTokens (tokens ++ later),
      ofLexemesOk.2 ⟨?_, List.rel_append (walkBecomes walked) becomes, rfl⟩⟩
    exact fitsBeforeWalk walked (fun l found => absurd found (startFirst l)) (fun _ => begins) fits

theorem lexemesBefore (parts : lexemesOf text = front ++ .rightParen :: back) :
    lexemesOf (textBefore text front.length) = front := by
  obtain ⟨within, remaining⟩ := (Cursor.start text).restAfter front.length
  have there : Scan.lexemes ((Cursor.start text).after front.length).rest = .rightParen :: back := by
    rw [remaining, Cursor.start, ← lexemesOf, parts, List.drop_left]
  simp only [textBefore, Cursor.start] at within there ⊢
  generalize (Cursor.after ⟨text.toList⟩ front.length).rest = rest at within there ⊢
  cases step : Scan.next? rest with
  | none => simp [Scan.lexemesOfNone step] at there
  | some found =>
    obtain ⟨l, after⟩ := found
    rw [Scan.lexemesOfSome step] at there
    obtain ⟨rfl, rfl⟩ := List.cons.inj there
    have ahead : dropBlank rest = ')' :: after := (Scan.nextPrescribed step).1
    obtain ⟨before, whole⟩ := (List.dropWhile_suffix isBlank).trans within
    rw [← dropBlank, ahead] at whole
    have cut : text.toList.take (text.toList.length - (dropBlank rest).length) = before := by
      rw [← whole, ahead, List.length_append, Nat.add_sub_cancel, List.take_left]
    rw [lexemesOf, ← whole, Scan.lexemesClose] at parts
    rw [cut, lexemesOf, String.toList_ofList]
    exact List.append_cancel_right parts

theorem walkPrefix (walked : Walks naming .start (front ++ back) last tokens) :
    ∃ there before, Walks naming .start front there before := by
  cases back with
  | nil =>
    rw [List.append_nil] at walked
    exact ⟨_, _, walked⟩
  | cons l back =>
    obtain ⟨there, before, _, _, onward, _⟩ := walkSplit walked
    exact ⟨there, before, onward⟩

theorem walkNeverBelow (walked : Walks naming .start front last tokens) (n : Nat) :
    (front.take n).count .rightParen ≤ (front.take n).count .leftParen := by
  rw [← List.take_append_drop n front] at walked
  obtain ⟨there, before, onward⟩ := walkPrefix walked
  have depth := (walkPlace onward).2.2
  simp only [Place.start] at depth
  omega

theorem framedDue (walked : Walks naming .start front last tokens)
    (ends : ∃ l, front.getLast? = some l ∧ l.kind.endsOperand = true) : last.due = .operatorOrClose := by
  obtain ⟨l, final, ends⟩ := ends
  have previous := (walkPlace walked).2.1
  rw [final] at previous
  rw [Place.due, previous]
  exact if_pos ends

theorem unclosedWalk (failed : Formula.ofTextWith naming text = .error (.unclosed count)) :
    Framed (lexemesOf text) ∧ ∃ last tokens, Walks naming .start (lexemesOf text) last tokens ∧
      last.depth = count ∧ count ≠ 0 := by
  obtain ⟨p, stops⟩ := ofTextError.1 failed
  cases stops with
  | atOnce stops => cases stops
  | within framed parts walked refused => cases refusedLocated walked (shapeAt parts) refused
  | unclosed framed walked opened => exact ⟨framed, _, _, walked, rfl, opened⟩

theorem builtWithClosing (framed : Framed (lexemesOf text))
    (walked : Walks naming .start (lexemesOf text) last tokens) (count : Nat) :
    (∃ f, Formula.ofTextWith naming (withClosing text count) = .ok f) ↔ count = last.depth := by
  simp only [ofTextLexemes, lexemesWithClosing]
  obtain ⟨first, head, begins⟩ := framed.begins
  refine walkedLacks walked (fun l found => ?_) (framedDue walked framed.ends) count
  cases head.symm.trans found
  exact begins

theorem closeNotFirst (framed : Framed (lexemesOf text))
    (parts : lexemesOf text = front ++ .rightParen :: back) : front ≠ [] := by
  rintro rfl
  obtain ⟨first, head, begins⟩ := framed.begins
  rw [parts] at head
  cases head
  cases begins

theorem closeDue (walked : Walks naming .start front last tokens) (nonempty : front ≠ [])
    (follows : Follows front .rightParen) : last.due = .operatorOrClose := by
  have final := List.getLast?_eq_some_getLast nonempty
  have meets := follows _ final
  rw [Place.due, (walkPlace walked).2.1, final]
  change (front.getLast nonempty).kind.expectedNext = .operatorOrClose
  cases due : (front.getLast nonempty).kind.expectedNext with
  | operand =>
    rw [due] at meets
    cases meets
  | operatorOrClose => rfl

theorem unmatchedWalk {p : Nat} (failed : Formula.ofTextWith naming text = .error (.unmatchedClose p)) :
    ∃ front back last tokens, lexemesOf text = front ++ .rightParen :: back ∧ front.length = p ∧
      front ≠ [] ∧ (∀ l, front.head? = some l → l.kind.beginsOperand = true) ∧
      Walks naming .start front last tokens ∧ last.due = .operatorOrClose ∧ last.depth = 0 := by
  obtain ⟨p, stops⟩ := ofTextError.1 failed
  cases stops with
  | atOnce stops => cases stops
  | within framed parts walked refused =>
    cases refusedLocated walked (shapeAt parts) refused with
    | unmatched follows closes even =>
      subst closes
      have nonempty := closeNotFirst framed parts
      have depth := (walkPlace walked).2.2
      simp only [Place.start, even] at depth
      exact ⟨_, _, _, _, parts, rfl, nonempty, framedBegins framed parts, walked,
        closeDue walked nonempty follows, by omega⟩

theorem parenthesisRepair (naming : Naming) (text : String) :
    (∀ count, Formula.ofTextWith naming text = .error (.unclosed count) → 1 ≤ count ∧
      ∀ k, (∃ f, Formula.ofTextWith naming (withClosing text k) = .ok f) ↔ k = count) ∧
    (∀ f, Formula.ofTextWith naming text = .ok f →
      ∀ k, (∃ g, Formula.ofTextWith naming (withClosing text k) = .ok g) ↔ k = 0) ∧
    ∀ p, Formula.ofTextWith naming text = .error (.unmatchedClose p) → 1 ≤ p ∧
      (lexemesOf text)[p]? = some .rightParen ∧
      (∀ n ≤ p, ((lexemesOf text).take n).count .rightParen ≤ ((lexemesOf text).take n).count .leftParen) ∧
      ∃ f, Formula.ofTextWith naming (textBefore text p) = .ok f := by
  refine ⟨fun count failed => ?_, fun f built k => ?_, fun p failed => ?_⟩
  · obtain ⟨framed, last, tokens, walked, rfl, opened⟩ := unclosedWalk failed
    exact ⟨Nat.pos_of_ne_zero opened, builtWithClosing framed walked⟩
  · obtain ⟨framed, last, tokens, walked⟩ := builtWalked built
    have lacks := builtWithClosing framed walked
    have same : withClosing text 0 = text := String.append_empty
    have closed : 0 = last.depth := (lacks 0).1 ⟨f, by rw [same, built]⟩
    rw [closed]
    exact lacks k
  · obtain ⟨front, back, last, tokens, parts, rfl, nonempty, begins, walked, due, closed⟩ :=
      unmatchedWalk failed
    refine ⟨List.length_pos_iff.2 nonempty, ?_, fun n within => ?_, ?_⟩
    · rw [parts, List.getElem?_append_right (Nat.le_refl _), Nat.sub_self]
      rfl
    · rw [parts, List.take_append_of_le_length within]
      exact walkNeverBelow walked n
    · obtain ⟨f, accepted⟩ := (walkedLacks walked begins due 0).2 closed.symm
      refine ⟨f, ?_⟩
      rw [ofTextLexemes, lexemesBefore parts, ← accepted]
      exact congrArg _ (List.append_nil front).symm

theorem leftOpenOrUnmatched :
    (Formula.ofText "((1" = .error (.unclosed 2) ∧
      ∀ k, (∃ f, Formula.ofText (withClosing "((1" k) = .ok f) ↔ k = 2) ∧
    Formula.ofText "1))" = .error (.unmatchedClose 1) ∧ ∃ f, Formula.ofText (textBefore "1))" 1) = .ok f := by
  have value : (⟨['1'], none, none⟩ : Numeral).value? = some ⟨0x3FF0000000000000⟩ := by decide +kernel
  have openLexemes : lexemesOf "((1" = [.leftParen, .leftParen, .number ⟨['1'], none, none⟩] := by
    have chars : "((1".toList = ['(', '(', '1'] := by decide
    rw [lexemesOf, chars]
    iterate 3 rw [Scan.lexemesOfSome rfl]
    rw [Scan.lexemesOfNone rfl]
    rfl
  have openWalk : Walks .asWritten .start (lexemesOf "((1")
      ⟨3, 2, some (.number ⟨['1'], none, none⟩)⟩ [.leftParen, .leftParen, .number ⟨0x3FF0000000000000⟩] := by
    rw [openLexemes]
    exact .next rfl rfl .leftParen (.next rfl rfl .leftParen (.next rfl rfl (.number value) .done))
  have closeLexemes : lexemesOf "1))" = [.number ⟨['1'], none, none⟩, .rightParen, .rightParen] := by
    have chars : "1))".toList = ['1', ')', ')'] := by decide
    rw [lexemesOf, chars]
    iterate 3 rw [Scan.lexemesOfSome rfl]
    rw [Scan.lexemesOfNone rfl]
    rfl
  have closeWalk : Walks .asWritten .start [.number ⟨['1'], none, none⟩]
      ⟨1, 0, some (.number ⟨['1'], none, none⟩)⟩ [.number ⟨0x3FF0000000000000⟩] :=
    .next rfl rfl (.number value) .done
  have framed : Framed (lexemesOf "((1") ∧ Framed (lexemesOf "1))") := by
    rw [openLexemes, closeLexemes]
    exact ⟨⟨⟨_, rfl, rfl⟩, ⟨_, rfl, rfl⟩⟩, ⟨⟨_, rfl, rfl⟩, ⟨_, rfl, rfl⟩⟩⟩
  have unclosed : Formula.ofText "((1" = .error (.unclosed 2) :=
    ofTextError.2 ⟨_, .unclosed framed.1 openWalk (by decide)⟩
  have unmatched : Formula.ofText "1))" = .error (.unmatchedClose 1) :=
    ofTextError.2 ⟨_, .within framed.2 closeLexemes closeWalk (.depth rfl rfl)⟩
  obtain ⟨_, _, _, before⟩ := (parenthesisRepair .asWritten "1))").2.2 1 unmatched
  exact ⟨⟨unclosed, ((parenthesisRepair .asWritten "((1").1 2 unclosed).2⟩, unmatched, before⟩

end ArithmeticFormula
