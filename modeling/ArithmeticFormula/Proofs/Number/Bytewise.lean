import ArithmeticFormula.Fault
import ArithmeticFormula.Proofs.Number.Divided
import ArithmeticFormula.Proofs.Text.Bytes

/-! The length of a numeral, found by byte offsets. Digits, the point, an exponent marker and its sign are looked
for among the bytes, and the text is cut where digits are to be counted next. Main statement: every such cut is
at a boundary, and the length found is that of the numeral at the start of the text. -/
namespace ArithmeticFormula.Bytewise

def sliceFrom (text : List Char) (offset : Nat) : Except BadCut (List Char) := (cutAt text offset).map Prod.snd

def mantissaLength (text : List Char) : Except BadCut (Option Nat) :=
  let whole := digitsLength text
  if standsAt '.' text whole then do
    let rest ← sliceFrom text (whole + 1)
    let places := digitsLength rest
    return if whole = 0 ∧ places = 0 then none else some (whole + 1 + places)
  else .ok (if whole = 0 then none else some whole)

def marksExponent (text : List Char) (offset : Nat) : Bool := standsAt 'e' text offset || standsAt 'E' text offset

def exponentStart (text : List Char) (offset : Nat) : Nat :=
  if standsAt '+' text (offset + 1) || standsAt '-' text (offset + 1) then offset + 2 else offset + 1

def withExponent (text : List Char) (len : Nat) : Except BadCut Nat :=
  if marksExponent text len then do
    let rest ← sliceFrom text (exponentStart text len)
    let digits := digitsLength rest
    return if 0 < digits then exponentStart text len + digits else len
  else .ok len

def numberLength (text : List Char) : Except BadCut (Option Nat) := do
  let mantissa ← mantissaLength text
  match mantissa with
  | none => return none
  | some len =>
      let whole ← withExponent text len
      return some whole

variable {c : Char} {text front back digits rest : List Char}

theorem sliceAfter (front back : List Char) : sliceFrom (front ++ back) (byteLength front) = .ok back := by
  rw [sliceFrom, cutAfter]
  rfl

theorem lengthPast (ascii : c.toNat < 128) (front : List Char) :
    byteLength (front ++ [c]) = byteLength front + 1 := by
  have one : byteLength [c] = 1 := asciiLength (List.forall_mem_singleton.2 ascii)
  rw [byteLengthAppend, one]

theorem slicePast (ascii : c.toNat < 128) (front back : List Char) :
    sliceFrom (front ++ c :: back) (byteLength front + 1) = .ok back := by
  rw [← lengthPast ascii, List.append_cons, sliceAfter]

theorem standsPast (ascii : c.toNat < 128) (d : Char) (other : d.toNat < 128) (front back : List Char) :
    standsAt d (front ++ c :: back) (byteLength front + 1) = (back.head? == some d) := by
  rw [← lengthPast ascii, List.append_cons, standsAfter other]

theorem digitsSize (all : Digits digits) : byteLength digits = digits.length :=
  asciiLength fun c member => digitAscii (all c member)

theorem digitsBefore (all : Digits digits) (past : ∀ c, rest.head? = some c → c.isDigit = false) :
    digitsLength (digits ++ rest) = byteLength digits := by
  rw [digitsAgree, (spanWhole all past).1, digitsSize all]

theorem mantissaAfter (all : Digits digits) (past : ∀ c, rest.head? = some c → c.isDigit = false) :
    mantissaLength (digits ++ rest) =
      .ok (if digits.isEmpty && ((Numeral.splitFraction rest).1.getD []).isEmpty then none
        else some (byteLength (digits ++ ((Numeral.splitFraction rest).1.map ('.' :: ·)).getD []))) := by
  have empty : byteLength digits = 0 ↔ digits.isEmpty = true := by
    rw [digitsSize all, List.length_eq_zero_iff, List.isEmpty_iff]
  have point : ('.' : Char).toNat < 128 := by decide
  rw [mantissaLength, digitsBefore all past, standsAfter point]
  by_cases pointed : rest.head? = some '.'
  · obtain ⟨tail, rfl⟩ := List.head?_eq_some_iff.1 pointed
    have places := digitsSize (digitsTaken tail)
    have more : byteLength (digits ++ '.' :: tail.takeWhile Char.isDigit) =
        byteLength digits + 1 + (tail.takeWhile Char.isDigit).length := by
      rw [List.append_cons, byteLengthAppend, lengthPast point, places]
    rw [slicePast point]
    simp only [Numeral.splitFraction, Option.map_some, Option.getD_some, more]
    rw [if_pos (by simp), Outcome.okBind, digitsAgree]
    simp only [empty, List.length_eq_zero_iff, List.isEmpty_iff, Bool.and_eq_true]
    rfl
  · rw [Numeral.splitPointless pointed, if_neg (by simpa using pointed)]
    simp only [empty, Option.map_none, Option.getD_none, List.isEmpty_nil, Bool.and_true, List.append_nil]

theorem marksAfter (front back : List Char) :
    marksExponent (front ++ back) (byteLength front) = back.head?.any ExponentPart.isMarker := by
  rw [marksExponent, standsAfter (by decide), standsAfter (by decide)]
  cases back <;> rfl

def mantissaChars (text : List Char) : List Char :=
  text.takeWhile Char.isDigit ++
    ((Numeral.splitFraction (text.dropWhile Char.isDigit)).1.map ('.' :: ·)).getD []

def mantissaRest (text : List Char) : List Char := (Numeral.splitFraction (text.dropWhile Char.isDigit)).2

def mantissaMissing (text : List Char) : Bool :=
  (text.takeWhile Char.isDigit).isEmpty &&
    ((Numeral.splitFraction (text.dropWhile Char.isDigit)).1.getD []).isEmpty

theorem mantissaParts (text : List Char) : mantissaChars text ++ mantissaRest text = text := by
  rw [mantissaChars, mantissaRest, List.append_assoc, Numeral.splitFractionAppend,
    List.takeWhile_append_dropWhile]

theorem digitsPast (text : List Char) :
    ∀ c, (text.dropWhile Char.isDigit).head? = some c → c.isDigit = false := by
  intro c found
  have stops := List.head?_dropWhile_not Char.isDigit text
  rw [found] at stops
  simpa using stops

theorem mantissaAgrees (text : List Char) : mantissaLength text =
    .ok (if mantissaMissing text then none else some (byteLength (mantissaChars text))) := by
  have found := mantissaAfter (digitsTaken text) (digitsPast text)
  rw [List.takeWhile_append_dropWhile] at found
  exact found

theorem pointBoundary (pointed : standsAt '.' text (digitsLength text) = true) :
    isBoundary text (digitsLength text + 1) = true := by
  have whole := List.takeWhile_append_dropWhile (p := Char.isDigit) (l := text)
  have counted := digitsBefore (digitsTaken text) (digitsPast text)
  rw [whole] at counted
  rw [counted] at pointed ⊢
  generalize text.takeWhile Char.isDigit = digits at whole pointed
  generalize text.dropWhile Char.isDigit = rest at whole
  subst whole
  rw [standsAfter (by decide), beq_iff_eq] at pointed
  obtain ⟨tail, rfl⟩ := List.head?_eq_some_iff.1 pointed
  rw [← lengthPast (show '.'.toNat < 128 by decide), List.append_cons]
  exact boundaryAfter _ tail

theorem signCases (text : List Char) :
    (∃ sign rest, text = Sign.char sign :: rest ∧ Sign.split text = (some sign, rest)) ∨
      (Sign.split text = (none, text) ∧ text.head? ≠ some '+' ∧ text.head? ≠ some '-') := by
  unfold Sign.split
  split
  · exact .inl ⟨.plus, _, rfl, rfl⟩
  · exact .inl ⟨.minus, _, rfl, rfl⟩
  · rename_i plus minus
    refine .inr ⟨rfl, fun found => ?_, fun found => ?_⟩
    · obtain ⟨rest, rfl⟩ := List.head?_eq_some_iff.1 found
      exact plus rest rfl
    · obtain ⟨rest, rfl⟩ := List.head?_eq_some_iff.1 found
      exact minus rest rfl

def exponentHead (marker : Char) (text : List Char) : List Char :=
  marker :: ((Sign.split text).1.map Sign.char).toList

theorem exponentParts (front : List Char) (marker : Char) (text : List Char) :
    front ++ marker :: text = (front ++ exponentHead marker text) ++ (Sign.split text).2 := by
  rw [exponentHead, List.append_assoc, List.cons_append, Sign.splitAppend]

theorem exponentStartAfter (ascii : c.toNat < 128) (front back : List Char) :
    exponentStart (front ++ c :: back) (byteLength front) = byteLength (front ++ exponentHead c back) := by
  rw [exponentStart, standsPast ascii '+' (by decide), standsPast ascii '-' (by decide), exponentHead]
  obtain ⟨sign, rest, rfl, split⟩ | ⟨split, plus, minus⟩ := signCases back
  · have small : sign.char.toNat < 128 := by cases sign <;> decide
    have two : byteLength (front ++ [c, sign.char]) = byteLength front + 2 := by
      rw [List.append_cons, lengthPast small, lengthPast ascii]
    rw [split]
    cases sign <;> exact two.symm
  · rw [split, if_neg (by simp [plus, minus])]
    exact (lengthPast ascii front).symm

theorem markerAscii (marks : ExponentPart.isMarker c = true) : c.toNat < 128 := by
  rcases isMarkerIff.1 marks with rfl | rfl <;> decide

theorem exponentAfter (front tail : List Char) : withExponent (front ++ tail) (byteLength front) =
    .ok (byteLength (front ++ ((ExponentPart.read? tail).map (·.1.chars)).getD [])) := by
  rw [withExponent, marksAfter]
  cases tail with
  | nil => simp [ExponentPart.read?]
  | cons c text =>
    rw [ExponentPart.read?, List.head?_cons, Option.any_some]
    cases marks : ExponentPart.isMarker c with
    | false => simp
    | true =>
      have parts := exponentParts front c text
      have size := digitsSize (digitsTaken (Sign.split text).2)
      rw [if_pos rfl, if_pos rfl, exponentStartAfter (markerAscii marks), parts, sliceAfter, Outcome.okBind,
        digitsAgree]
      simp only
      generalize (Sign.split text).2.takeWhile Char.isDigit = digits at size
      cases digits with
      | nil => simp [pure, Except.pure]
      | cons d digits =>
        have whole : byteLength (front ++ exponentHead c text ++ d :: digits) =
            byteLength (front ++ exponentHead c text) + (d :: digits).length := by
          rw [byteLengthAppend, size]
        have some : 0 < (d :: digits).length := Nat.succ_pos _
        rw [if_pos some, ← whole, List.append_assoc]
        rfl

theorem finishChars (whole : List Char) (fraction : Option (List Char)) (tail : List Char) :
    (Numeral.finish whole fraction tail).1.chars =
      whole ++ (fraction.map ('.' :: ·)).getD [] ++ ((ExponentPart.read? tail).map (·.1.chars)).getD [] := by
  rw [Numeral.finish]
  cases ExponentPart.read? tail <;> rfl

theorem markerBoundary {len : Nat} (found : mantissaLength text = .ok (some len))
    (marked : marksExponent text len = true) : isBoundary text (exponentStart text len) = true := by
  have parts := mantissaParts text
  rw [mantissaAgrees] at found
  cases missing : mantissaMissing text with
  | true =>
    rw [missing] at found
    cases found
  | false =>
    rw [missing] at found
    cases found
    generalize mantissaChars text = front at parts marked
    generalize mantissaRest text = back at parts
    subst parts
    rw [marksAfter] at marked
    cases back with
    | nil => cases marked
    | cons c back =>
      rw [exponentStartAfter (markerAscii marked), exponentParts]
      exact boundaryAfter _ _

theorem numberAgrees (text : List Char) :
    numberLength text = .ok ((Numeral.read? text).map fun found => byteLength found.1.chars) := by
  have exponent := exponentAfter (mantissaChars text) (mantissaRest text)
  rw [mantissaParts] at exponent
  rw [numberLength, mantissaAgrees, Outcome.okBind, Numeral.readFinish, ← mantissaMissing]
  cases mantissaMissing text with
  | true => rfl
  | false =>
    simp only [Bool.false_eq_true, if_false, exponent, Outcome.okBind, Option.map_some, finishChars]
    rfl

end ArithmeticFormula.Bytewise
