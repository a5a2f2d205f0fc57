import ArithmeticFormula.Proofs.Lexeme.Parted

/-! A text divided by a blank, a parenthesis or an operator. The scan of what stands before such a character
knows nothing of what comes after it, except for a sign that a numeral takes into its exponent. A lexeme also
stands on its own: by itself its characters are scanned as that lexeme. Main statement: the lexemes of a
divided text are those of its two parts, one after the other. -/
namespace ArithmeticFormula.Scan

variable {text rest word : List Char} {c d : Char} {l : Lexeme}

/- A character that no lexeme goes on with and no stray run goes over. -/
structure Divides (d : Char) : Prop extends Numeral.Divides d where
  notNamePart : isNamePart d = false
  stops : isBlank d = true ∨ (Lexeme.mark? d).isSome = true

theorem markDivides {mark : Lexeme} (read : Lexeme.mark? d = some mark) : Divides d := by
  obtain ⟨part, digit, point, marker, _⟩ := markContinuesNothing read
  exact ⟨⟨digit, point, marker⟩, part, .inr (by rw [read]; rfl)⟩

theorem blankDivides (blank : isBlank d = true) : Divides d := by
  have part : isNamePart d = false := by
    by_contra named
    rw [namePartNotBlank (by simpa using named)] at blank
    cases blank
  refine ⟨⟨?_, ?_, ?_⟩, part, .inl blank⟩
  · by_contra digit
    rw [digitIsNamePart (by simpa using digit)] at part
    cases part
  · rintro rfl
    cases blank
  · by_contra marker
    rcases isMarkerIff.1 (by simpa using marker) with rfl | rfl <;> cases part

theorem stopsStrayDivided (divides : Divides d) (rest : List Char) : stopsStray (d :: rest) = true := by
  rcases divides.stops with blank | mark
  · simp [stopsStray, blank]
  · simp [stopsStray, mark]

theorem splitStrayDivided (divides : Divides d) (text rest : List Char) :
    splitStray (text ++ d :: rest) = ((splitStray text).1, (splitStray text).2 ++ d :: rest) := by
  induction text with
  | nil => simp [splitStray, stopsStrayDivided divides]
  | cons c text ih =>
    have same : stopsStray (c :: text ++ d :: rest) = stopsStray (c :: text) := by
      have read := Numeral.readDividedSome divides.toDivides (c :: text) rest
      simp only [List.cons_append, stopsStray] at read ⊢
      rw [read]
    rw [List.cons_append] at same ⊢
    rw [splitStray, splitStray, same, ih]
    split <;> rfl

def Joins (text : List Char) (d : Char) (rest : List Char) : Prop :=
  ∃ n tail, Numeral.read? text = some (n, tail) ∧ n.exponent = none ∧ ExponentPart.Joins tail d rest

theorem lexemeAtDivided (divides : Divides d) (apart : ¬ Joins (c :: text) d rest) :
    lexemeAt c (text ++ d :: rest) = ((lexemeAt c text).1, (lexemeAt c text).2 ++ d :: rest) := by
  have span := spanDivided divides.notNamePart text rest
  have numeral := Numeral.readDivided divides.toDivides fun n tail read absent joins =>
    apart ⟨n, tail, read, absent, joins⟩
  rw [List.cons_append] at numeral
  simp only [lexemeAt, span.1, span.2, numeral, splitStrayDivided divides]
  split
  · rfl
  · split
    · rfl
    · cases Numeral.read? (c :: text) <;> rfl

theorem lexemesBlanks {blanks : List Char} (blank : ∀ c ∈ blanks, isBlank c = true) (rest : List Char) :
    lexemes (blanks ++ rest) = lexemes rest := by
  have same : next? (blanks ++ rest) = next? rest := by
    simp only [next?, dropBlank, List.dropWhile_append_of_pos blank]
  cases step : next? rest with
  | none => rw [lexemesOfNone step, lexemesOfNone (same.trans step)]
  | some found => rw [lexemesOfSome step, lexemesOfSome (same.trans step)]

theorem dropBlankAppend (solid : dropBlank text ≠ []) (rest : List Char) :
    dropBlank (text ++ rest) = dropBlank text ++ rest := by
  have some : (text.dropWhile isBlank).isEmpty = false := by simpa [dropBlank] using solid
  rw [dropBlank, List.dropWhile_append, some]
  rfl

theorem nextDivided (divides : Divides d) {after : List Char} (step : next? text = some (l, after))
    (apart : ¬ Joins (dropBlank text) d rest) : next? (text ++ d :: rest) = some (l, after ++ d :: rest) := by
  rw [next?] at step
  split at step
  · cases step
  · rename_i c tail here
    have found := Option.some.inj step
    have solid : dropBlank text ≠ [] := by simp [here]
    rw [here] at apart
    rw [next?, dropBlankAppend solid, here, List.cons_append]
    simp only [lexemeAtDivided divides apart, found]

/- A numeral without an exponent and then a marker, with nothing after or between them, stand at the end of a
text that a sign and a digit follow. -/
structure Fuses (text : List Char) (d : Char) (rest : List Char) : Prop where
  ends : ∃ front n marker, lexemes text = front ++ [.number n, .name (String.ofList [marker])] ∧
    n.exponent = none ∧ ExponentPart.isMarker marker = true ∧ n.chars ++ [marker] <:+ text
  sign : d = '+' ∨ d = '-'
  digit : ∃ c, rest.head? = some c ∧ c.isDigit = true

theorem nextRead {n : Numeral} (read : Numeral.read? (dropBlank text) = some (n, rest)) :
    next? text = some (.number n, rest) := by
  rw [next?]
  cases here : dropBlank text with
  | nil =>
    rw [here] at read
    cases read
  | cons c tail =>
    rw [here] at read
    simp only [(lexemeAtNumeral read).1]

theorem markerAlone (marks : ExponentPart.isMarker c = true) :
    lexemes [c] = [.name (String.ofList [c])] := by
  rcases isMarkerIff.1 marks with rfl | rfl <;> rw [lexemesOfSome rfl, lexemesOfNone rfl] <;> rfl

theorem joinsFuses (joins : Joins (dropBlank text) d rest) : Fuses text d rest := by
  obtain ⟨n, tail, read, absent, ⟨marker, rfl, marks⟩, sign, digit⟩ := joins
  refine ⟨⟨[], n, marker, ?_, absent, marks, ?_⟩, sign, digit⟩
  · rw [lexemesOfSome (nextRead read), markerAlone marks]
    rfl
  · rw [Numeral.readAppend read]
    exact List.dropWhile_suffix isBlank

theorem fusesLater {after : List Char} (step : next? text = some (l, after)) (fuses : Fuses after d rest) :
    Fuses text d rest := by
  obtain ⟨⟨front, n, marker, later, absent, marks, ending⟩, sign, digit⟩ := fuses
  refine ⟨⟨l :: front, n, marker, ?_, absent, marks, ?_⟩, sign, digit⟩
  · rw [lexemesOfSome step, later, List.cons_append]
  · exact ending.trans (restSuffix step)

theorem lexemesDivided (divides : Divides d) (apart : ¬ Fuses text d rest) :
    lexemes (text ++ d :: rest) = lexemes text ++ lexemes (d :: rest) := by
  fun_induction lexemes text with
  | case1 text step =>
    have blank := List.dropWhile_eq_nil_iff.1 (nextNone.1 step)
    rw [lexemesBlanks blank, List.nil_append]
  | case2 text l after step ih =>
    have goes := nextDivided divides step fun joins => apart (joinsFuses joins)
    rw [lexemesOfSome goes, ih fun fuses => apart (fusesLater step fuses), List.cons_append]

theorem lexemesBlank (blank : isBlank d = true) (text rest : List Char) :
    lexemes (text ++ d :: rest) = lexemes text ++ lexemes rest := by
  have apart : ¬ Fuses text d rest := by
    intro fuses
    rcases fuses.sign with rfl | rfl <;> cases blank
  have alone : ∀ c ∈ [d], isBlank c = true := by simpa using blank
  rw [lexemesDivided (blankDivides blank) apart, ← List.singleton_append, lexemesBlanks alone]

theorem closeNotFuses (rest : List Char) : ¬ Fuses text ')' rest :=
  fun fuses => fuses.sign.elim (nomatch ·) (nomatch ·)

theorem lexemesMark {mark : Lexeme} (read : Lexeme.mark? d = some mark) (apart : ¬ Fuses text d rest) :
    lexemes (text ++ d :: rest) = lexemes text ++ mark :: lexemes rest := by
  rw [lexemesDivided (markDivides read) apart, lexemesOfSome (nextMark read)]

theorem lexemesClose (text rest : List Char) :
    lexemes (text ++ ')' :: rest) = lexemes text ++ .rightParen :: lexemes rest :=
  lexemesMark rfl (closeNotFuses rest)

theorem readShorter (nothing : Numeral.read? (text ++ rest) = none) : Numeral.read? text = none := by
  rw [Numeral.readNone] at nothing ⊢
  rintro ⟨word, tail, rfl, spelled⟩
  exact nothing ⟨word, tail ++ rest, (List.append_assoc _ _ _).symm, spelled⟩

theorem stopsStrayShorter (goes : stopsStray (c :: (text ++ rest)) = false) :
    stopsStray (c :: text) = false := by
  simp only [stopsStray, Bool.or_eq_false_iff, Option.isSome_eq_false_iff, Option.isNone_iff_eq_none] at goes ⊢
  exact ⟨goes.1, readShorter goes.2⟩

theorem strayAlone (text : List Char) : splitStray (splitStray text).1 = ((splitStray text).1, []) := by
  induction text with
  | nil => rfl
  | cons c text ih =>
    rw [splitStray]
    split
    · rfl
    · rename_i goes
      have whole : stopsStray (c :: ((splitStray text).1 ++ (splitStray text).2)) = false := by
        simpa [splitStrayAppend] using goes
      rw [splitStray, stopsStrayShorter whole, ih]
      rfl

theorem lexemeAlone (solid : isBlank c = false) (here : lexemeAt c text = (l, rest)) :
    next? l.chars = some (l, []) := by
  unfold lexemeAt at here
  split at here
  · rename_i mark read
    cases here
    rw [markChars read, nextMark read]
  · rename_i unmarked
    split at here
    · rename_i start
      cases here
      have shape : isName (String.ofList (c :: text.takeWhile isNamePart)) = true := by
        simp [isName, isNameChars, start]
      have alone := nextName shape delimitsNil
      rwa [List.append_nil] at alone
    · rename_i unnamed
      split at here
      · rename_i numeral after read
        cases here
        have alone := nextNumeral (Numeral.wellFormedRead read) delimitsNil
        rwa [List.append_nil] at alone
      · rename_i unread
        cases here
        rw [← splitStrayAppend text] at unread
        have still : Numeral.read? (c :: (splitStray text).1) = none := readShorter unread
        rw [Lexeme.chars, String.toList_ofList, nextAt solid]
        simp only [lexemeAt, unmarked, unnamed, still, strayAlone]
        rfl

theorem nextAlone (step : next? text = some (l, rest)) : next? l.chars = some (l, []) := by
  obtain ⟨_, _, _, solid⟩ := dropBlankSplit text
  unfold next? at step
  split at step
  · cases step
  · rename_i c tail here
    rw [here] at solid
    exact lexemeAlone (solid c rfl) (Option.some.inj step)

theorem lexemesAlone (member : l ∈ lexemes text) : next? l.chars = some (l, []) := by
  fun_induction lexemes text with
  | case1 text step => cases member
  | case2 text m after step ih =>
    rcases List.mem_cons.1 member with rfl | later
    · exact nextAlone step
    · exact ih later

end ArithmeticFormula.Scan
