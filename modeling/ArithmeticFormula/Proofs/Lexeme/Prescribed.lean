import ArithmeticFormula.Proofs.Lexeme.Scan
import ArithmeticFormula.Proofs.Number.Spelling

/-! The lexeme that the rules prescribe at a place, told without the scan: a parenthesis or operator, else
the longest name, else the longest numeral, else a run at none of whose places one of these stands and that
ends only at a blank, at one of these or at the end. The scan takes what is prescribed, and there is never
more than one such lexeme. -/
namespace ArithmeticFormula.Scan

variable {c : Char} {text word rest other tail : List Char} {l : Lexeme} {kind otherKind : Kind}

def marks : List (Char × Kind) :=
  [('(', .leftParen), (')', .rightParen), ('+', .operator), ('-', .operator), ('*', .operator),
   ('/', .operator)]

def IsMark (word : List Char) : Prop := ∃ entry ∈ marks, word = [entry.1]

def IsWord (word : List Char) : Prop := isNameChars word = true

def Recognized (text : List Char) : Prop :=
  Begins IsMark text ∨ Begins IsWord text ∨ Begins IsNumeral text

def EndsRun (rest : List Char) : Prop :=
  rest = [] ∨ (∃ c tail, rest = c :: tail ∧ isBlank c = true) ∨ Recognized rest

inductive Prescribed (text : List Char) : Kind → List Char → List Char → Prop where
  | mark {c : Char} {kind : Kind} {rest : List Char} (here : text = c :: rest)
      (entry : (c, kind) ∈ marks) : Prescribed text kind [c] rest
  | name {word rest : List Char} (unmarked : ¬ Begins IsMark text)
      (longest : Longest IsWord text word rest) : Prescribed text .name word rest
  | number {word rest : List Char} (unmarked : ¬ Begins IsMark text) (unnamed : ¬ Begins IsWord text)
      (longest : Longest IsNumeral text word rest) : Prescribed text .number word rest
  | stray {word rest : List Char} (parts : word ++ rest = text) (nonempty : word ≠ [])
      (inside : ∀ front c back, word = front ++ c :: back →
        isBlank c = false ∧ ¬ Recognized (c :: (back ++ rest)))
      (ends : EndsRun rest) : Prescribed text .stray word rest

theorem beginsMark : Begins IsMark (c :: text) ↔ ∃ mark, Lexeme.mark? c = some mark := by
  refine ⟨fun begins => ?_, fun read => ?_⟩
  · obtain ⟨word, rest, parts, entry, member, rfl⟩ := begins
    obtain ⟨rfl, _⟩ := List.cons.inj parts
    simp only [marks, List.mem_cons, List.not_mem_nil, or_false] at member
    rcases member with rfl | rfl | rfl | rfl | rfl | rfl <;> exact ⟨_, rfl⟩
  · obtain ⟨mark, read⟩ := read
    refine ⟨[c], text, rfl, ?_⟩
    obtain ⟨rfl, _⟩ | ⟨rfl, _⟩ | ⟨op, rfl, _⟩ := markCases read
    · exact ⟨('(', .leftParen), by decide, rfl⟩
    · exact ⟨(')', .rightParen), by decide, rfl⟩
    · exact ⟨(op.symbol, .operator), by cases op <;> decide, rfl⟩

theorem beginsWord : Begins IsWord (c :: text) ↔ isNameStart c = true := by
  refine ⟨fun begins => ?_, fun start => ⟨[c], text, rfl, by simp [IsWord, isNameChars, start]⟩⟩
  obtain ⟨word, rest, parts, spelled⟩ := begins
  cases word with
  | nil => cases spelled
  | cons first parts' =>
    obtain ⟨rfl, _⟩ := List.cons.inj parts
    simp only [IsWord, isNameChars, Bool.and_eq_true] at spelled
    exact spelled.1

theorem beginsNumeral : Begins IsNumeral text ↔ (Numeral.read? text).isSome = true := by
  cases read : Numeral.read? text with
  | none => simpa using Numeral.readNone.1 read
  | some found =>
    obtain ⟨n, rest⟩ := found
    simpa using longestBegins (Numeral.readLongest read)

theorem recognizedIff : Recognized (c :: text) ↔
    (Lexeme.mark? c).isSome = true ∨ isNameStart c = true ∨ (Numeral.read? (c :: text)).isSome = true := by
  rw [Recognized, beginsMark, beginsWord, beginsNumeral, ← Option.isSome_iff_exists]

theorem stopsStrayIff : stopsStray text = true ↔ EndsRun text := by
  cases text with
  | nil => exact iff_of_true rfl (.inl rfl)
  | cons c text =>
    have ends : EndsRun (c :: text) ↔ isBlank c = true ∨ Recognized (c :: text) := by
      simp [EndsRun]
    rw [ends, recognizedIff]
    simp only [stopsStray, Bool.or_eq_true]
    tauto

theorem longestRun {p : Char → Bool} (parts : word ++ rest = text) (all : ∀ c ∈ word, p c = true) :
    word.length ≤ (text.takeWhile p).length := by
  rw [← parts, List.takeWhile_append_of_pos all, List.length_append]
  exact Nat.le_add_right _ _

theorem longestName (start : isNameStart c = true) :
    Longest IsWord (c :: text) (c :: text.takeWhile isNamePart) (text.dropWhile isNamePart) where
  parts := congrArg (c :: ·) List.takeWhile_append_dropWhile
  spelled := by
    rw [IsWord, isNameChars, start, Bool.true_and, List.all_eq_true]
    exact fun _ member => List.mem_takeWhile_imp member
  longest := by
    intro other tail parts spelled
    cases other with
    | nil => cases spelled
    | cons first others =>
      simp only [IsWord, isNameChars, Bool.and_eq_true, List.all_eq_true] at spelled
      exact Nat.succ_le_succ (longestRun (List.cons.inj parts).2 spelled.2)

theorem splitStrayRun (text : List Char) :
    (∀ front c back, (splitStray text).1 = front ++ c :: back →
      stopsStray (c :: (back ++ (splitStray text).2)) = false) ∧
    stopsStray (splitStray text).2 = true := by
  induction text with
  | nil => exact ⟨fun front c back same => by simp [splitStray] at same, rfl⟩
  | cons d text ih =>
    rw [splitStray]
    split
    · rename_i stops
      exact ⟨fun front c back same => by simp at same, stops⟩
    · rename_i goes
      refine ⟨fun front c back same => ?_, ih.2⟩
      cases front with
      | nil =>
        obtain ⟨rfl, rfl⟩ := List.cons.inj same
        rw [splitStrayAppend]
        simpa using goes
      | cons e front => exact ih.1 front c back (List.cons.inj same).2

theorem lexemeAtPrescribed (solid : isBlank c = false) (text : List Char) :
    Prescribed (c :: text) (lexemeAt c text).1.kind (lexemeAt c text).1.chars (lexemeAt c text).2 := by
  cases read : Lexeme.mark? c with
  | some mark =>
    rw [lexemeAtMark read, markChars read]
    have entry : (c, mark.kind) ∈ marks := by
      obtain ⟨rfl, rfl⟩ | ⟨rfl, rfl⟩ | ⟨op, rfl, rfl⟩ := markCases read
      · decide
      · decide
      · cases op <;> decide
    exact .mark rfl entry
  | none =>
    have unmarked : ¬ Begins IsMark (c :: text) := by
      rw [beginsMark, read]
      exact fun some => nomatch some
    cases start : isNameStart c with
    | true =>
      rw [lexemeAtName start]
      simpa [Lexeme.kind, Lexeme.chars] using Prescribed.name unmarked (longestName start)
    | false =>
      have unnamed : ¬ Begins IsWord (c :: text) := by simp [beginsWord, start]
      cases found : Numeral.read? (c :: text) with
      | some numeral =>
        obtain ⟨n, rest⟩ := numeral
        have here : lexemeAt c text = (.number n, rest) := by
          simp only [lexemeAt, read, start, found]
          rfl
        rw [here]
        exact .number unmarked unnamed (Numeral.readLongest found)
      | none =>
        have here : lexemeAt c text =
            (.stray (String.ofList (c :: (splitStray text).1)), (splitStray text).2) := by
          simp only [lexemeAt, read, start, found]
          rfl
        have run := splitStrayRun text
        have strange : ¬ Recognized (c :: text) := by simp [recognizedIff, read, start, found]
        have inside : ∀ front d back, c :: (splitStray text).1 = front ++ d :: back →
            isBlank d = false ∧ ¬ Recognized (d :: (back ++ (splitStray text).2)) := by
          intro front d back same
          cases front with
          | nil =>
            obtain ⟨rfl, rfl⟩ := List.cons.inj same
            rw [splitStrayAppend]
            exact ⟨solid, strange⟩
          | cons e front =>
            have goes := run.1 front d back (List.cons.inj same).2
            simp only [stopsStray, Bool.or_eq_false_iff] at goes
            refine ⟨goes.1.2, ?_⟩
            rw [recognizedIff]
            simp [goes.1.1, goes.2]
        rw [here]
        simpa [Lexeme.kind, Lexeme.chars] using Prescribed.stray
          (congrArg (c :: ·) (splitStrayAppend text)) (List.cons_ne_nil _ _) inside (stopsStrayIff.1 run.2)

theorem strayUnrecognized (prescribed : Prescribed text .stray word rest) : ¬ Recognized text := by
  cases prescribed with
  | mark here entry => simp [marks] at entry
  | stray parts nonempty inside ends =>
    cases word with
    | nil => exact absurd rfl nonempty
    | cons c back => exact parts ▸ (inside [] c back rfl).2

theorem strayEnds (stray : kind = .stray) (prescribed : Prescribed text kind word rest) : EndsRun rest := by
  cases prescribed with
  | mark here entry =>
    subst stray
    simp [marks] at entry
  | name unmarked longest => cases stray
  | number unmarked unnamed longest => cases stray
  | stray parts nonempty inside ends => exact ends

theorem strayBounded {first second rest tail : List Char} (firstParts : first ++ rest = text)
    (secondParts : second ++ tail = text)
    (inside : ∀ front c back, second = front ++ c :: back →
      isBlank c = false ∧ ¬ Recognized (c :: (back ++ tail)))
    (ends : EndsRun rest) : second.length ≤ first.length := by
  by_contra longer
  obtain ⟨more, rfl⟩ : first <+: second :=
    List.prefix_of_prefix_length_le ⟨rest, firstParts⟩ ⟨tail, secondParts⟩ (by omega)
  cases more with
  | nil => simp at longer
  | cons c back =>
    have same : first ++ rest = first ++ c :: (back ++ tail) := by
      rw [firstParts, ← secondParts, List.append_assoc, List.cons_append]
    obtain rfl := List.append_cancel_left same
    have goes := inside first c back rfl
    obtain done | ⟨d, rest, same, blank⟩ | starts := ends
    · cases done
    · cases same
      rw [goes.1] at blank
      cases blank
    · exact goes.2 starts

theorem markBegins (here : text = c :: rest) (entry : (c, kind) ∈ marks) : Begins IsMark text :=
  ⟨[c], rest, here.symm, _, entry, rfl⟩

theorem prescribedUnique (first : Prescribed text kind word rest)
    (second : Prescribed text otherKind other tail) : kind = otherKind ∧ word = other ∧ rest = tail := by
  cases first with
  | mark here entry =>
    have begins := markBegins here entry
    cases second with
    | mark there otherEntry =>
      obtain ⟨rfl, rfl⟩ := List.cons.inj (here.symm.trans there)
      have same : ∀ a ∈ marks, ∀ b ∈ marks, a.1 = b.1 → a.2 = b.2 := by decide
      exact ⟨same _ entry _ otherEntry rfl, rfl, rfl⟩
    | name unmarked _ => exact absurd begins unmarked
    | number unmarked _ _ => exact absurd begins unmarked
    | stray parts nonempty inside ends =>
      exact absurd (.inl begins) (strayUnrecognized (.stray parts nonempty inside ends))
  | name unmarked longest =>
    cases second with
    | mark there entry => exact absurd (markBegins there entry) unmarked
    | name _ otherLongest => exact ⟨rfl, longestUnique longest otherLongest⟩
    | number _ unnamed _ => exact absurd (longestBegins longest) unnamed
    | stray parts nonempty inside ends =>
      exact absurd (.inr (.inl (longestBegins longest)))
        (strayUnrecognized (.stray parts nonempty inside ends))
  | number unmarked unnamed longest =>
    cases second with
    | mark there entry => exact absurd (markBegins there entry) unmarked
    | name _ otherLongest => exact absurd (longestBegins otherLongest) unnamed
    | number _ _ otherLongest => exact ⟨rfl, longestUnique longest otherLongest⟩
    | stray parts nonempty inside ends =>
      exact absurd (.inr (.inr (longestBegins longest)))
        (strayUnrecognized (.stray parts nonempty inside ends))
  | stray parts nonempty inside ends =>
    have strange := strayUnrecognized (.stray parts nonempty inside ends)
    cases second with
    | mark there entry => exact absurd (.inl (markBegins there entry)) strange
    | name _ otherLongest => exact absurd (.inr (.inl (longestBegins otherLongest))) strange
    | number _ _ otherLongest => exact absurd (.inr (.inr (longestBegins otherLongest))) strange
    | stray otherParts _ otherInside otherEnds =>
      have length : word.length = other.length :=
        Nat.le_antisymm (strayBounded otherParts parts inside otherEnds)
          (strayBounded parts otherParts otherInside ends)
      exact ⟨rfl, List.append_inj (parts.trans otherParts.symm) length⟩

end ArithmeticFormula.Scan
