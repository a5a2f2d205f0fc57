import ArithmeticFormula.Proofs.Formula.Canonical
import ArithmeticFormula.Proofs.Lexeme.Divided
import ArithmeticFormula.Scan
import Mathlib.Data.List.Sort

/-! The names that a text refers to and the variables of its formula. A lexeme stands on its own, so that its
kind can be told from its characters, and the pieces of a text with the shape of a name are its names. Main
statement: the names found without a formula become, under the naming, the variables of the formula. -/
namespace ArithmeticFormula

variable {naming : Naming} {text other : String} {l m : Lexeme} {f : Formula}

theorem lexemesOfAlone (member : l ∈ lexemesOf text) : lexemesOf l.text = [l] := by
  rw [lexemesOf, Lexeme.text, String.toList_ofList, Scan.lexemesSingle (Scan.lexemesAlone member)]

theorem lexemeOfText (member : l ∈ lexemesOf text) (memberOther : m ∈ lexemesOf other)
    (same : m.text = l.text) : m = l := by
  have alone := lexemesOfAlone memberOther
  rw [same, lexemesOfAlone member] at alone
  exact (List.singleton_inj.1 alone).symm

theorem nameOfShape (member : l ∈ lexemesOf text) : isName l.text = true ↔ l.kind = .name := by
  refine ⟨fun shape => ?_, fun kind => ?_⟩
  · have scanned := Scan.nextName shape Scan.delimitsNil
    have alone := Scan.lexemesAlone member
    rw [List.append_nil, Lexeme.text, String.toList_ofList, alone] at scanned
    have same : l = .name (String.ofList l.chars) := (Prod.mk.inj (Option.some.inj scanned)).1
    rw [same]
    rfl
  · cases l with
    | name raw =>
      rw [Lexeme.text, Lexeme.chars, String.ofList_toList]
      exact Scan.nameShape member
    | leftParen | rightParen | operator | number | stray => cases kind

theorem piecesNames (text : String) : (piecesOf text).filter isName =
    ((lexemesOf text).filter fun l => l.kind == .name).map Lexeme.text := by
  rw [piecesOf, List.filter_map]
  congr 1
  refine List.filter_congr fun l member => ?_
  rw [Function.comp_apply, Bool.eq_iff_iff, nameOfShape member, beq_iff_eq]

theorem memPiecesName {raw : String} :
    raw ∈ (piecesOf text).filter isName ↔ .name raw ∈ lexemesOf text := by
  rw [piecesNames]
  simp only [List.mem_map, List.mem_filter, beq_iff_eq]
  constructor
  · intro given
    obtain ⟨l, ⟨member, kind⟩, same⟩ := given
    cases l with
    | name text =>
      rw [Lexeme.text, Lexeme.chars, String.ofList_toList] at same
      rwa [← same]
    | leftParen | rightParen | operator | number | stray => cases kind
  · intro member
    exact ⟨.name raw, ⟨member, rfl⟩, by rw [Lexeme.text, Lexeme.chars, String.ofList_toList]⟩

theorem memReferencesOf {raw : String} : raw ∈ referencesOf text ↔ .name raw ∈ lexemesOf text := by
  rw [referencesOf, memOrderedTexts, memPiecesName]

theorem TextSet.sameTexts {s t : TextSet} (same : ∀ text, text ∈ s ↔ text ∈ t) : s.texts = t.texts :=
  s.increasing.eq_of_mem_iff t.increasing fun {text} => same text

theorem namesBuilt (built : Formula.ofTextWith naming text = .ok f) (name : String) :
    .name name ∈ f.tokens ↔ ∃ raw, .name raw ∈ lexemesOf text ∧ naming.rename raw = name := by
  have becomes := (ofTextOk.1 built).2.1
  generalize lexemesOf text = lexemes at becomes
  generalize f.tokens = tokens at becomes
  induction becomes with
  | nil => simp
  | cons head tail ih =>
    simp only [List.mem_cons, ih]
    cases head with
    | leftParen | rightParen | operator | number => simp
    | name rawShape shape admitted => grind

theorem namesReferences (built : Formula.ofTextWith naming text = .ok f) :
    f.names = orderedTexts ((referencesOf text).map naming.rename) := by
  refine TextSet.sameTexts fun name => ?_
  rw [TextSet.memOfList, ← TextSet.memTexts, ← Formula.names, memNames (ofTextOk.1 built).2.2, namesBuilt built]
  simp only [List.mem_map, memReferencesOf]

theorem referencesAreNames (text : String) :
    (∀ l ∈ lexemesOf text, lexemesOf l.text = [l] ∧ (isName l.text = true ↔ l.kind = .name) ∧
      ∀ other, ∀ m ∈ lexemesOf other, m.text = l.text → m.kind = l.kind) ∧
    (piecesOf text).filter isName = ((lexemesOf text).filter fun l => l.kind == .name).map Lexeme.text ∧
    (∀ naming f, Formula.ofTextWith naming text = .ok f →
      f.names = orderedTexts ((referencesOf text).map naming.rename)) ∧
    ∀ f, Formula.ofText text = .ok f → f.names = referencesOf text := by
  refine ⟨fun l member => ⟨lexemesOfAlone member, nameOfShape member, fun other m found same => ?_⟩,
    piecesNames text, fun naming f => namesReferences, fun f built => ?_⟩
  · rw [lexemeOfText member found same]
  · rw [namesReferences built]
    refine TextSet.sameTexts fun name => ?_
    simp [TextSet.memOfList, referencesOf, Naming.asWritten]

theorem quotientReferences : ∃ f, Formula.ofTextWith (.ofRules .upper .all) "x / (1.50 - y)" = .ok f ∧
    f.names = orderedTexts ((referencesOf "x / (1.50 - y)").map Renaming.upper.apply) :=
  ⟨_, quotientBuilds, (referencesAreNames _).2.2.1 _ _ quotientBuilds⟩

end ArithmeticFormula
