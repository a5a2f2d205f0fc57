import ArithmeticFormula.Formula
import ArithmeticFormula.Proofs.Lexeme.Parted
import ArithmeticFormula.Proofs.Number.Bytewise
import Mathlib.Data.List.Basic

/-! The scan by byte offsets. A lexeme is cut off the text by its length in bytes, and the end of a stray run is
looked for at the offset of every character. Main statement: whatever the text, no cut is off a boundary, each
takes at least one byte, and the pieces are the lexemes. -/
namespace ArithmeticFormula

structure Piece where
  kind : Kind
  chars : List Char
  deriving DecidableEq, Repr

def Lexeme.piece (l : Lexeme) : Piece := ⟨l.kind, l.chars⟩

namespace Bytewise

def startsLexeme : List Char → Except BadCut Bool
  | [] => .ok true
  | c :: text =>
      if (Lexeme.mark? c).isSome || isNameStart c || isBlank c then .ok true
      else (numberLength (c :: text)).map Option.isSome

def charOffsets : Nat → List Char → List Nat
  | _, [] => []
  | offset, c :: text => offset :: charOffsets (offset + c.utf8Size) text

def firstStart (text : List Char) : List Nat → Except BadCut Nat
  | [] => .ok (byteLength text)
  | offset :: later => do
      let rest ← sliceFrom text offset
      let starts ← startsLexeme rest
      if starts then return offset else firstStart text later

def strayLength (text : List Char) : Except BadCut Nat := firstStart text ((charOffsets 0 text).drop 1)

def findOffset (p : Char → Bool) : Nat → List Char → Option Nat
  | _, [] => none
  | offset, c :: text => if p c then some offset else findOffset p (offset + c.utf8Size) text

def nameLength (text : List Char) : Nat := (findOffset (fun c => !isNamePart c) 0 text).getD (byteLength text)

def lengthAt (c : Char) (text : List Char) : Except BadCut (Kind × Nat) :=
  match Lexeme.mark? c with
  | some mark => .ok (mark.kind, 1)
  | none =>
      if isNameStart c then .ok (.name, nameLength text)
      else do
        let number ← numberLength text
        match number with
        | some len => return (.number, len)
        | none =>
            let len ← strayLength text
            return (.stray, len)

def take (text : List Char) (kind : Kind) (len : Nat) : Except BadCut (Piece × List Char) :=
  (cutAt text len).map fun parts => (⟨kind, parts.1⟩, parts.2)

def next (text : List Char) : Except BadCut (Option Piece × List Char) :=
  match dropBlank text with
  | [] => .ok (none, [])
  | c :: rest => do
      let (kind, len) ← lengthAt c (c :: rest)
      let (piece, after) ← take (c :: rest) kind len
      return (some piece, after)

variable {c : Char} {text front back rest : List Char} {offset : Nat} {l : Lexeme}

theorem startsAgrees (text : List Char) : startsLexeme text = .ok (Scan.stopsStray text) := by
  cases text with
  | nil => rfl
  | cons c text =>
    rw [startsLexeme, Scan.stopsStray, numberAgrees]
    cases (Lexeme.mark? c).isSome || isNameStart c || isBlank c with
    | true => rfl
    | false => simp [Except.map]

theorem offsetsBoundary (front back : List Char) :
    ∀ offset ∈ charOffsets (byteLength front) back, isBoundary (front ++ back) offset = true := by
  induction back generalizing front with
  | nil => exact fun _ member => nomatch member
  | cons c back ih =>
    refine List.forall_mem_cons.2 ⟨boundaryAfter front _, ?_⟩
    have later := ih (front ++ [c])
    rwa [byteLengthConcat, ← List.append_cons] at later

theorem firstStartAgrees (front back : List Char) :
    firstStart (front ++ back) (charOffsets (byteLength front) back) =
      .ok (byteLength (front ++ (Scan.splitStray back).1)) := by
  induction back generalizing front with
  | nil => simp [charOffsets, firstStart, Scan.splitStray]
  | cons c back ih =>
    rw [charOffsets, firstStart, sliceAfter, Outcome.okBind, startsAgrees, Outcome.okBind, Scan.splitStray]
    cases Scan.stopsStray (c :: back) with
    | true => simp [pure, Except.pure]
    | false =>
      have later := ih (front ++ [c])
      rw [byteLengthConcat, ← List.append_cons] at later
      simpa using later

theorem strayAgrees (c : Char) (text : List Char) :
    strayLength (c :: text) = .ok (byteLength (c :: (Scan.splitStray text).1)) := by
  have found := firstStartAgrees [c] text
  rw [byteLengthCons] at found
  simpa [strayLength, charOffsets, byteLength, bytesOf] using found

theorem findAgrees (offset : Nat) (text : List Char) :
    (findOffset (fun c => !isNamePart c) offset text).getD (offset + byteLength text) =
      offset + byteLength (text.takeWhile isNamePart) := by
  induction text generalizing offset with
  | nil => rfl
  | cons c text ih =>
    rw [findOffset]
    cases part : isNamePart c with
    | true => simp [part, ih, byteLengthCons, ← Nat.add_assoc]
    | false => simp [part, byteLength, bytesOf]

theorem nameAgrees (text : List Char) : nameLength text = byteLength (text.takeWhile isNamePart) := by
  have found := findAgrees 0 text
  rwa [Nat.zero_add, Nat.zero_add] at found

theorem markLength {mark : Lexeme} (read : Lexeme.mark? c = some mark) : byteLength mark.chars = 1 := by
  rw [Scan.markChars read]
  obtain ⟨rfl, _⟩ | ⟨rfl, _⟩ | ⟨op, rfl, _⟩ := Scan.markCases read
  · rfl
  · rfl
  · cases op <;> rfl

theorem lengthAgrees (c : Char) (text : List Char) : lengthAt c (c :: text) =
    .ok ((Scan.lexemeAt c text).1.kind, byteLength (Scan.lexemeAt c text).1.chars) := by
  rw [lengthAt, Scan.lexemeAt]
  cases read : Lexeme.mark? c with
  | some mark => rw [markLength read]
  | none =>
    cases start : isNameStart c with
    | true => simp [nameAgrees, nameStartIsPart start, Lexeme.kind, Lexeme.chars]
    | false =>
      simp only [Bool.false_eq_true, if_false, numberAgrees, Outcome.okBind]
      cases found : Numeral.read? (c :: text) with
      | some numeral => rfl
      | none =>
        simp only [Option.map_none, strayAgrees, Outcome.okBind, Lexeme.kind, Lexeme.chars,
          String.toList_ofList]
        rfl

theorem nextAgrees (cursor : Cursor) :
    next cursor.rest = .ok (cursor.take.1.map Lexeme.piece, cursor.take.2.rest) := by
  rw [next, Cursor.take, Scan.next?]
  cases dropBlank cursor.rest with
  | nil => rfl
  | cons c rest =>
    have cut := cutAfter (Scan.lexemeAt c rest).1.chars (Scan.lexemeAt c rest).2
    rw [Scan.lexemeAtAppend] at cut
    simp only [lengthAgrees, Outcome.okBind, take, cut]
    rfl

theorem nextShorter {piece : Piece} (step : next text = .ok (some piece, rest)) : rest.length < text.length := by
  have agrees := nextAgrees ⟨text⟩
  rw [step] at agrees
  obtain ⟨taken, after⟩ := Prod.mk.inj (Except.ok.inj agrees)
  obtain ⟨l, found, _⟩ := Option.map_eq_some_iff.1 taken.symm
  subst after
  exact Scan.nextShorter (Cursor.takeSome.1 (Prod.ext found rfl))

def pieces (text : List Char) : Except BadCut (List Piece) :=
  match _step : next text with
  | .error cut => .error cut
  | .ok (none, _) => .ok []
  | .ok (some piece, rest) => (pieces rest).map (piece :: ·)
termination_by text.length
decreasing_by exact nextShorter _step

theorem piecesNone (step : next text = .ok (none, rest)) : pieces text = .ok [] := by
  rw [pieces]
  split <;> simp_all

theorem piecesSome {piece : Piece} (step : next text = .ok (some piece, rest)) :
    pieces text = (pieces rest).map (piece :: ·) := by
  rw [pieces]
  split <;> simp_all

theorem piecesAgree (text : List Char) : pieces text = .ok ((Scan.lexemes text).map Lexeme.piece) := by
  have agrees := fun text => nextAgrees ⟨text⟩
  fun_induction Scan.lexemes text with
  | case1 text step =>
    have here := agrees text
    rw [Cursor.take, step] at here
    exact piecesNone here
  | case2 text l rest step ih =>
    have here := agrees text
    rw [Cursor.take, step] at here
    rw [piecesSome here, ih]
    rfl

def lexemeOf (piece : Piece) : Option Lexeme :=
  match piece.kind with
  | .leftParen => some .leftParen
  | .rightParen => some .rightParen
  | .operator => (Operator.ofText (String.ofList piece.chars)).toOption.map .operator
  | .name => some (.name (String.ofList piece.chars))
  | .number => (Numeral.read? piece.chars).map fun found => .number found.1
  | .stray => some (.stray (String.ofList piece.chars))

theorem lexemeOfPiece (formed : Scan.Formed l) : lexemeOf l.piece = some l := by
  cases l with
  | leftParen | rightParen => rfl
  | operator op => cases op <;> rfl
  | name text | stray text => simp [lexemeOf, Lexeme.piece, Lexeme.kind, Lexeme.chars]
  | number n => simp [lexemeOf, Lexeme.piece, Lexeme.kind, Lexeme.chars, Numeral.readAlone formed]

def build (naming : Naming) (text : String) : Except BadCut (Except FormatFault Formula) :=
  if text.isEmpty then .ok (.error .empty)
  else (pieces text.toList).map fun pieces => Formula.ofLexemes naming (pieces.filterMap lexemeOf)

theorem buildAgrees (naming : Naming) (text : String) : build naming text = .ok (Formula.ofTextWith naming text) := by
  have each : ∀ l ∈ lexemesOf text, (lexemeOf ∘ Lexeme.piece) l = some l :=
    fun l member => lexemeOfPiece (Scan.lexemesForall Scan.lexemeAtFormed text.toList l member)
  have again : ((lexemesOf text).map Lexeme.piece).filterMap lexemeOf = lexemesOf text := by
    rw [List.filterMap_map, List.filterMap_congr each]
    exact List.filterMap_some
  rw [build, Formula.ofTextWith]
  split
  · rfl
  · rw [piecesAgree, ← lexemesOf, Except.map, again]

/- Where a text is cut while a numeral or the end of a stray run is looked for at its start. -/
structure CutsSafely (text : List Char) : Prop where
  digits : digitsLength text = (text.takeWhile Char.isDigit).length
  afterPoint : standsAt '.' text (digitsLength text) = true → isBoundary text (digitsLength text + 1) = true
  afterMarker : ∀ len, mantissaLength text = .ok (some len) → marksExponent text len = true →
    isBoundary text (exponentStart text len) = true
  offsets : ∀ offset ∈ charOffsets 0 text, isBoundary text offset = true
  number : ∃ found, numberLength text = .ok found
  starts : ∃ found, startsLexeme text = .ok found

theorem cutsSafely (text : List Char) : CutsSafely text where
  digits := digitsAgree text
  afterPoint := pointBoundary
  afterMarker _ := markerBoundary
  offsets := offsetsBoundary [] text
  number := ⟨_, numberAgrees text⟩
  starts := ⟨_, startsAgrees text⟩

end Bytewise

theorem Cursor.afterNext (cursor : Cursor) (calls : Nat) :
    cursor.after (calls + 1) = (cursor.after calls).take.2 := by
  induction calls generalizing cursor with
  | zero => rfl
  | succ calls ih => exact ih cursor.take.2

theorem scanCutsAtBoundaries (naming : Naming) (text : String) :
    bytesOf text.toList = text.toByteArray.data.toList ∧
    (∀ rest offset front back,
      cutAt rest offset = .ok (front, back) ↔ rest = front ++ back ∧ byteLength front = offset) ∧
    (∀ rest, Bytewise.CutsSafely rest) ∧
    (∀ calls c tail, dropBlank ((Cursor.start text).after calls).rest = c :: tail →
      ∃ kind len, Bytewise.lengthAt c (c :: tail) = .ok (kind, len) ∧ 1 ≤ len ∧
        isBoundary (c :: tail) len = true) ∧
    (∀ calls, Bytewise.next ((Cursor.start text).after calls).rest =
      .ok (((Cursor.start text).after calls).take.1.map Lexeme.piece,
        ((Cursor.start text).after (calls + 1)).rest)) ∧
    Bytewise.pieces text.toList = .ok ((lexemesOf text).map Lexeme.piece) ∧
    Bytewise.build naming text = .ok (Formula.ofTextWith naming text) := by
  refine ⟨bytesOfString text, fun _ _ _ _ => cutIff, Bytewise.cutsSafely, fun calls c tail ahead => ?_,
    fun calls => ?_, Bytewise.piecesAgree text.toList, Bytewise.buildAgrees naming text⟩
  · have found := Bytewise.lengthAgrees c tail
    have whole := Scan.lexemeAtAppend c tail
    refine ⟨_, _, found, byteLengthPositive (Scan.lexemeAtNonempty c tail), ?_⟩
    rw [← whole]
    exact boundaryAfter _ _
  · rw [Cursor.afterNext]
    exact Bytewise.nextAgrees _

/- A letter of two bytes after a point: there is no boundary within it, and the cut is before it. -/
theorem wideAfterPoint : isBoundary ['1', '.', 'é'] 3 = false ∧
    Bytewise.lengthAt '1' ['1', '.', 'é'] = .ok (.number, 2) ∧ isBoundary ['1', '.', 'é'] 2 = true := by
  have ahead : dropBlank ((Cursor.start "1.é").after 0).rest = ['1', '.', 'é'] := by decide
  have length : Bytewise.lengthAt '1' ['1', '.', 'é'] = .ok (.number, 2) := by decide +kernel
  obtain ⟨kind, len, found, _, boundary⟩ := (scanCutsAtBoundaries .asWritten "1.é").2.2.2.1 0 '1' ['.', 'é'] ahead
  rw [length] at found
  cases found
  exact ⟨by decide, length, boundary⟩

end ArithmeticFormula
