import ArithmeticFormula.Lexeme
import ArithmeticFormula.Text

/-! Cutting a text into lexemes. Blanks are skipped; what follows is a parenthesis or operator, else the
longest name, else the longest numeral, else a stray run that ends before a blank and before any place
where another lexeme starts. Each step uses up at least one character. A cursor is a place in a text being
scanned; it is a value, so a copy moves on its own. -/
namespace ArithmeticFormula

def Lexeme.mark? : Char → Option Lexeme
  | '(' => some .leftParen
  | ')' => some .rightParen
  | c => (Operator.ofSymbol? c).map .operator

namespace Scan

def stopsStray : List Char → Bool
  | [] => true
  | c :: rest =>
      (Lexeme.mark? c).isSome || isNameStart c || isBlank c || (Numeral.read? (c :: rest)).isSome

def splitStray : List Char → List Char × List Char
  | [] => ([], [])
  | c :: rest =>
      if stopsStray (c :: rest) then ([], c :: rest)
      else (c :: (splitStray rest).1, (splitStray rest).2)

def lexemeAt (c : Char) (text : List Char) : Lexeme × List Char :=
  match Lexeme.mark? c with
  | some mark => (mark, text)
  | none =>
      if isNameStart c then
        (.name (String.ofList (c :: text.takeWhile isNamePart)), text.dropWhile isNamePart)
      else
        match Numeral.read? (c :: text) with
        | some (numeral, rest) => (.number numeral, rest)
        | none => (.stray (String.ofList (c :: (splitStray text).1)), (splitStray text).2)

def next? (text : List Char) : Option (Lexeme × List Char) :=
  match dropBlank text with
  | [] => none
  | c :: rest => some (lexemeAt c rest)

theorem splitStrayAppend (text : List Char) : (splitStray text).1 ++ (splitStray text).2 = text := by
  induction text with
  | nil => rfl
  | cons c rest ih => rw [splitStray]; split <;> simp [ih]

theorem markChars {c : Char} {mark : Lexeme} (read : Lexeme.mark? c = some mark) :
    mark.chars = [c] := by
  unfold Lexeme.mark? at read
  split at read
  · cases read; rfl
  · cases read; rfl
  · obtain ⟨op, found, rfl⟩ := Option.map_eq_some_iff.1 read
    rw [Operator.ofSymbolIff.1 found]
    rfl

theorem lexemeAtAppend (c : Char) (text : List Char) :
    (lexemeAt c text).1.chars ++ (lexemeAt c text).2 = c :: text := by
  unfold lexemeAt
  split
  · rename_i mark read
    simp [markChars read]
  · split
    · simp [Lexeme.chars, List.takeWhile_append_dropWhile]
    · split
      · rename_i numeral rest read
        exact Numeral.readAppend read
      · simp [Lexeme.chars, splitStrayAppend]

theorem lexemeAtNonempty (c : Char) (text : List Char) : (lexemeAt c text).1.chars ≠ [] := by
  unfold lexemeAt
  split
  · rename_i mark read
    simp [markChars read]
  · split
    · simp [Lexeme.chars]
    · split
      · rename_i numeral rest read
        exact Numeral.readNonempty read
      · simp [Lexeme.chars]

theorem nextShorter {text rest : List Char} {l : Lexeme} (step : next? text = some (l, rest)) :
    rest.length < text.length := by
  unfold next? at step
  split at step
  · cases step
  · rename_i c tail blank
    have whole := congrArg List.length (lexemeAtAppend c tail)
    have used := List.length_pos_iff.2 (lexemeAtNonempty c tail)
    have skipped := dropBlankLength text
    rw [Option.some.injEq] at step
    rw [step] at whole used
    rw [blank] at skipped
    simp only [List.length_append, List.length_cons] at whole skipped used
    omega

def lexemes (text : List Char) : List Lexeme :=
  match _step : next? text with
  | none => []
  | some (l, rest) => l :: lexemes rest
termination_by text.length
decreasing_by exact nextShorter _step

theorem lexemesOfNone {text : List Char} (done : next? text = none) : lexemes text = [] := by
  rw [lexemes]
  split
  · rfl
  · simp_all

theorem lexemesOfSome {text rest : List Char} {l : Lexeme} (step : next? text = some (l, rest)) :
    lexemes text = l :: lexemes rest := by
  rw [lexemes]
  split <;> simp_all

end Scan

def lexemesOf (text : String) : List Lexeme := Scan.lexemes text.toList

def piecesOf (text : String) : List String := (lexemesOf text).map Lexeme.text

structure Cursor where
  rest : List Char
  deriving DecidableEq, Repr

namespace Cursor

def start (text : String) : Cursor := ⟨text.toList⟩

def take (cursor : Cursor) : Option Lexeme × Cursor :=
  match Scan.next? cursor.rest with
  | some (l, rest) => (some l, ⟨rest⟩)
  | none => (none, ⟨[]⟩)

def takeAll (cursor : Cursor) : List Lexeme × Cursor := (Scan.lexemes cursor.rest, ⟨[]⟩)

end Cursor

def referencesOf (text : String) : List String := orderedTexts ((piecesOf text).filter isName)

end ArithmeticFormula
