import ArithmeticFormula.Proofs.Lexeme.Prescribed
import ArithmeticFormula.Scan

/-! A text parted into its lexemes. Main statement: the lexemes stand in the text one after the other with
nothing but blanks around them, each is the prescribed one where it stands, and a cursor yields them one by
one and then nothing any more. -/
namespace ArithmeticFormula

namespace Scan

variable {text rest word : List Char} {l m : Lexeme} {kind : Kind} {pieces : List Lexeme}

inductive Parted : List Char → List Lexeme → Prop where
  | done {blanks : List Char} (blank : ∀ c ∈ blanks, isBlank c = true) : Parted blanks []
  | next {blanks rest : List Char} {l : Lexeme} {pieces : List Lexeme}
      (blank : ∀ c ∈ blanks, isBlank c = true)
      (prescribed : Prescribed (l.chars ++ rest) l.kind l.chars rest) (later : Parted rest pieces) :
      Parted (blanks ++ (l.chars ++ rest)) (l :: pieces)

theorem prescribedSolid (prescribed : Prescribed text kind word rest) :
    word ≠ [] ∧ ∀ c ∈ word, isBlank c = false := by
  cases prescribed with
  | mark here entry =>
    refine ⟨List.cons_ne_nil _ _, fun d member => ?_⟩
    rw [List.mem_singleton.1 member]
    have solid : ∀ entry ∈ marks, isBlank entry.1 = false := by decide
    exact solid _ entry
  | name unmarked longest =>
    have spelled := longest.spelled
    have shape : isName (String.ofList word) = true := by
      rw [isName, String.toList_ofList]
      exact spelled
    refine ⟨fun none => ?_, fun c member => namePartNotBlank (isNameAll shape c (by simpa using member))⟩
    subst none
    cases spelled
  | number unmarked unnamed longest =>
    refine ⟨numeralNonempty longest.spelled, fun c member => ?_⟩
    rcases numeralChar longest.spelled member with digit | other
    · exact namePartNotBlank (digitIsNamePart digit)
    · have solid : (['.', 'e', 'E', '+', '-'].all fun c => !isBlank c) = true := by decide
      simpa using List.all_eq_true.1 solid c other
  | stray parts nonempty inside ends =>
    refine ⟨nonempty, fun c member => ?_⟩
    obtain ⟨front, back, same⟩ := List.append_of_mem member
    exact (inside front c back same).1

theorem dropBlankSplit (text : List Char) : ∃ blanks, (∀ c ∈ blanks, isBlank c = true) ∧
    text = blanks ++ dropBlank text ∧ ∀ c, (dropBlank text).head? = some c → isBlank c = false := by
  refine ⟨text.takeWhile isBlank, fun _ member => List.mem_takeWhile_imp member,
    List.takeWhile_append_dropWhile.symm, fun c found => ?_⟩
  have stops := List.head?_dropWhile_not isBlank text
  rw [dropBlank] at found
  rw [found] at stops
  simpa using stops

theorem dropBlankSolid (solid : ∀ c, text.head? = some c → isBlank c = false) : dropBlank text = text := by
  cases text with
  | nil => rfl
  | cons c rest => simp [dropBlank, solid c rfl]

theorem nextPrescribed (step : next? text = some (l, rest)) :
    dropBlank text = l.chars ++ rest ∧ Prescribed (dropBlank text) l.kind l.chars rest := by
  obtain ⟨blanks, _, _, solid⟩ := dropBlankSplit text
  unfold next? at step
  split at step
  · cases step
  · rename_i c tail here
    rw [here] at solid ⊢
    have found := Option.some.inj step
    have whole := lexemeAtAppend c tail
    have prescribed := lexemeAtPrescribed (solid c rfl) tail
    rw [found] at whole prescribed
    exact ⟨whole.symm, prescribed⟩

theorem restSuffix (step : next? text = some (l, rest)) : rest <:+ text := by
  have within : rest <:+ dropBlank text := ⟨l.chars, (nextPrescribed step).1.symm⟩
  exact within.trans (List.dropWhile_suffix isBlank)

theorem nextNone : next? text = none ↔ dropBlank text = [] := by
  cases here : dropBlank text with
  | nil => simp [next?, here]
  | cons c tail => simp [next?, here]

theorem lexemesParted (text : List Char) : Parted text (lexemes text) := by
  fun_induction lexemes text with
  | case1 text step =>
    obtain ⟨blanks, blank, same, _⟩ := dropBlankSplit text
    rw [nextNone.1 step, List.append_nil] at same
    exact .done (same ▸ blank)
  | case2 text l rest step ih =>
    obtain ⟨blanks, blank, same, _⟩ := dropBlankSplit text
    obtain ⟨here, prescribed⟩ := nextPrescribed step
    rw [here] at same prescribed
    rw [same]
    exact .next blank prescribed ih

theorem partedSolid (parted : Parted text pieces) :
    ∀ l ∈ pieces, l.chars ≠ [] ∧ ∀ c ∈ l.chars, isBlank c = false := by
  induction parted with
  | done blank => simp
  | next blank prescribed later ih => exact List.forall_mem_cons.2 ⟨prescribedSolid prescribed, ih⟩

theorem partedFilter (parted : Parted text pieces) :
    pieces.flatMap Lexeme.chars = text.filter fun c => !isBlank c := by
  have dropped : ∀ {blanks : List Char}, (∀ c ∈ blanks, isBlank c = true) →
      blanks.filter (fun c => !isBlank c) = [] := by
    intro blanks blank
    simpa using blank
  induction parted with
  | done blank => exact (dropped blank).symm
  | @next _ _ l _ blank prescribed later ih =>
    have kept : l.chars.filter (fun c => !isBlank c) = l.chars :=
      List.filter_eq_self.2 fun c member => by simp [(prescribedSolid prescribed).2 c member]
    rw [List.filter_append, List.filter_append, dropped blank, kept, List.flatMap_cons, ih]
    rfl

theorem strayThenBlank {after : List Char} (step : next? text = some (l, rest)) (stray : l.kind = .stray)
    (again : next? rest = some (m, after)) (strayAgain : m.kind = .stray) :
    ∃ c tail, rest = c :: tail ∧ isBlank c = true := by
  have first := (nextPrescribed step).2
  have second := (nextPrescribed again).2
  rw [strayAgain] at second
  by_contra solid
  have same : dropBlank rest = rest := by
    apply dropBlankSolid
    intro c found
    cases rest with
    | nil => cases found
    | cons d rest =>
      cases found
      simpa using fun blank => solid ⟨c, rest, rfl, blank⟩
  obtain rfl | blank | starts := strayEnds stray first
  · cases again
  · exact solid blank
  · exact strayUnrecognized second (same.symm ▸ starts)

end Scan

namespace Cursor

def after (cursor : Cursor) : Nat → Cursor
  | 0 => cursor
  | calls + 1 => cursor.take.2.after calls

theorem takeAfter (cursor : Cursor) (calls : Nat) :
    (cursor.after calls).take.1 = (Scan.lexemes cursor.rest)[calls]? := by
  induction calls generalizing cursor with
  | zero =>
    cases step : Scan.next? cursor.rest with
    | none => simp [after, take, step, Scan.lexemesOfNone step]
    | some found => simp [after, take, step, Scan.lexemesOfSome step]
  | succ calls ih =>
    have nothing : Scan.lexemes [] = [] := Scan.lexemesOfNone rfl
    rw [after, ih]
    cases step : Scan.next? cursor.rest with
    | none => simp [take, step, Scan.lexemesOfNone step, nothing]
    | some found => simp [take, step, Scan.lexemesOfSome step]

theorem restAfter (cursor : Cursor) (calls : Nat) : (cursor.after calls).rest <:+ cursor.rest ∧
    Scan.lexemes (cursor.after calls).rest = (Scan.lexemes cursor.rest).drop calls := by
  induction calls generalizing cursor with
  | zero => exact ⟨List.suffix_refl _, rfl⟩
  | succ calls ih =>
    obtain ⟨within, remaining⟩ := ih cursor.take.2
    rw [after]
    cases step : Scan.next? cursor.rest with
    | none =>
      simp only [take, step, Scan.lexemesNil, List.drop_nil] at within remaining ⊢
      rw [Scan.lexemesOfNone step, remaining, List.drop_nil]
      exact ⟨within.trans (List.nil_suffix), rfl⟩
    | some found =>
      obtain ⟨l, rest⟩ := found
      simp only [take, step] at within remaining ⊢
      rw [Scan.lexemesOfSome step, List.drop_succ_cons]
      exact ⟨within.trans (Scan.restSuffix step), remaining⟩

theorem takeAtEnd {cursor : Cursor} (ends : dropBlank cursor.rest = []) :
    cursor.take = (none, ⟨[]⟩) := by
  rw [take, Scan.nextNone.2 ends]

theorem takeSome {cursor next : Cursor} {l : Lexeme} :
    cursor.take = (some l, next) ↔ Scan.next? cursor.rest = some (l, next.rest) := by
  cases step : Scan.next? cursor.rest with
  | none => simp [take, step]
  | some found =>
    obtain ⟨m, rest⟩ := found
    obtain ⟨there⟩ := next
    simp [take, step]

end Cursor

theorem scanPrescribed (text : String) :
    (∀ calls, ((Cursor.start text).after calls).take.1 = (lexemesOf text)[calls]?) ∧
    Scan.Parted text.toList (lexemesOf text) ∧
    (∀ l ∈ lexemesOf text, l.chars ≠ [] ∧ ∀ c ∈ l.chars, isBlank c = false) ∧
    (lexemesOf text).flatMap Lexeme.chars = text.toList.filter (fun c => !isBlank c) ∧
    ∀ cursor : Cursor,
      (dropBlank cursor.rest = [] → cursor.take = (none, ⟨[]⟩)) ∧
      (dropBlank cursor.rest ≠ [] → ∃ l next, cursor.take = (some l, next) ∧
        next.rest.length < cursor.rest.length ∧
        ∀ kind word rest, Scan.Prescribed (dropBlank cursor.rest) kind word rest ↔
          kind = l.kind ∧ word = l.chars ∧ rest = next.rest) ∧
      ∀ l m next last, cursor.take = (some l, next) → next.take = (some m, last) →
        l.kind = .stray → m.kind = .stray → ∃ c tail, next.rest = c :: tail ∧ isBlank c = true := by
  have parted := Scan.lexemesParted text.toList
  refine ⟨(Cursor.start text).takeAfter, parted, Scan.partedSolid parted, Scan.partedFilter parted,
    fun cursor => ⟨Cursor.takeAtEnd, fun more => ?_, fun l m next last step again stray strayAgain => ?_⟩⟩
  · cases step : Scan.next? cursor.rest with
    | none => exact absurd (Scan.nextNone.1 step) more
    | some found =>
      obtain ⟨l, rest⟩ := found
      have prescribed := (Scan.nextPrescribed step).2
      refine ⟨l, ⟨rest⟩, Cursor.takeSome.2 step, Scan.nextShorter step, fun kind word other => ?_⟩
      refine ⟨fun also => Scan.prescribedUnique also prescribed, fun same => ?_⟩
      obtain ⟨rfl, rfl, rfl⟩ := same
      exact prescribed
  · exact Scan.strayThenBlank (Cursor.takeSome.1 step) stray (Cursor.takeSome.1 again) strayAgain

end ArithmeticFormula
