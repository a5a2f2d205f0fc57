import ArithmeticFormula.Proofs.Number.Spelling

/-! Texts by their bytes in UTF-8. An offset among them is a boundary if no character goes on there, and a text
is cut at boundaries only. Main statements: the boundaries are the lengths of what the text begins with, and
counting the bytes that are digits is counting the digits. -/
namespace ArithmeticFormula

def bytesOf (text : List Char) : List UInt8 := text.flatMap String.utf8EncodeChar

def byteLength (text : List Char) : Nat := (bytesOf text).length

def isContinuation (b : UInt8) : Bool := 128 ≤ b.toNat && b.toNat < 192

def isBoundary (text : List Char) (offset : Nat) : Bool :=
  offset ≤ byteLength text && (bytesOf text)[offset]?.all fun b => !isContinuation b

structure BadCut where
  text : List Char
  offset : Nat
  deriving DecidableEq, Repr

def splitBytes : List Char → Nat → List Char × List Char
  | [], _ => ([], [])
  | c :: text, offset =>
      if offset = 0 then ([], c :: text)
      else (c :: (splitBytes text (offset - c.utf8Size)).1, (splitBytes text (offset - c.utf8Size)).2)

def cutAt (text : List Char) (offset : Nat) : Except BadCut (List Char × List Char) :=
  if isBoundary text offset then .ok (splitBytes text offset) else .error ⟨text, offset⟩

def isDigitByte (b : UInt8) : Bool := 48 ≤ b.toNat && b.toNat ≤ 57

def digitsLength (text : List Char) : Nat := ((bytesOf text).takeWhile isDigitByte).length

def standsAt (c : Char) (text : List Char) (offset : Nat) : Bool :=
  (bytesOf text)[offset]? == some (UInt8.ofNat c.toNat)

variable {c d : Char} {text front back word : List Char} {offset : Nat} {lead : UInt8} {later : List UInt8}

theorem bytesOfString (text : String) : bytesOf text.toList = text.toByteArray.data.toList := by
  rw [← String.utf8Encode_toList, List.utf8Encode, List.toList_data_toByteArray]
  rfl

theorem bytesAppend (front back : List Char) : bytesOf (front ++ back) = bytesOf front ++ bytesOf back :=
  List.flatMap_append

theorem byteLengthAppend (front back : List Char) :
    byteLength (front ++ back) = byteLength front + byteLength back := by
  rw [byteLength, bytesAppend, List.length_append]
  rfl

structure CharBytes (c : Char) (lead : UInt8) (later : List UInt8) : Prop where
  encoded : String.utf8EncodeChar c = lead :: later
  leads : isContinuation lead = false
  continues : ∀ b ∈ later, isContinuation b = true
  ascii : c.toNat < 128 → lead = UInt8.ofNat c.toNat ∧ later = []
  beyond : 128 ≤ c.toNat → 128 ≤ lead.toNat

theorem charBytes (c : Char) : ∃ lead later, CharBytes c lead later := by
  have encoded := String.utf8EncodeChar.eq_1 c
  have size : c.val.toNat = c.toNat := rfl
  rw [size] at encoded
  split at encoded
  · rename_i ascii
    refine ⟨_, _, encoded, ?_, ?_, ?_, ?_⟩ <;> simp [isContinuation] <;> omega
  · rename_i beyond
    split at encoded
    · refine ⟨_, _, encoded, ?_, ?_, ?_, ?_⟩ <;> simp [isContinuation] <;> omega
    · split at encoded
      · refine ⟨_, _, encoded, ?_, ?_, ?_, ?_⟩ <;> simp [isContinuation] <;> omega
      · refine ⟨_, _, encoded, ?_, ?_, ?_, ?_⟩ <;> simp [isContinuation] <;> omega

theorem bytesCons (bytes : CharBytes c lead later) (text : List Char) :
    bytesOf (c :: text) = lead :: (later ++ bytesOf text) := by
  rw [bytesOf, List.flatMap_cons, bytes.encoded, List.cons_append]
  rfl

theorem sizeOfBytes (bytes : CharBytes c lead later) : c.utf8Size = later.length + 1 := by
  rw [← String.length_utf8EncodeChar, bytes.encoded, List.length_cons]

theorem byteLengthCons (c : Char) (text : List Char) : byteLength (c :: text) = c.utf8Size + byteLength text := by
  rw [byteLength, bytesOf, List.flatMap_cons, List.length_append, String.length_utf8EncodeChar]
  rfl

theorem byteLengthConcat (front : List Char) (c : Char) :
    byteLength (front ++ [c]) = byteLength front + c.utf8Size := by
  rw [byteLengthAppend, byteLengthCons]
  rfl

theorem byteLengthPositive (nonempty : text ≠ []) : 0 < byteLength text := by
  cases text with
  | nil => exact absurd rfl nonempty
  | cons c text =>
    have positive := c.utf8Size_pos
    rw [byteLengthCons]
    omega

theorem byteAfter (front back : List Char) : (bytesOf (front ++ back))[byteLength front]? = (bytesOf back).head? := by
  rw [bytesAppend, byteLength, List.getElem?_append_right (Nat.le_refl _), Nat.sub_self, List.head?_eq_getElem?]

theorem boundaryAfter (front back : List Char) : isBoundary (front ++ back) (byteLength front) = true := by
  have within : byteLength front ≤ byteLength (front ++ back) := by
    rw [byteLengthAppend]
    exact Nat.le_add_right _ _
  rw [isBoundary, byteAfter, decide_eq_true within, Bool.true_and]
  cases back with
  | nil => rfl
  | cons c back =>
    obtain ⟨lead, later, bytes⟩ := charBytes c
    rw [bytesCons bytes, List.head?_cons, Option.all_some, bytes.leads]
    rfl

theorem boundaryParts (boundary : isBoundary text offset = true) :
    ∃ front back, text = front ++ back ∧ byteLength front = offset := by
  induction text generalizing offset with
  | nil =>
    have within : offset = 0 := by simpa [isBoundary, byteLength, bytesOf] using boundary
    exact ⟨[], [], rfl, within.symm⟩
  | cons c text ih =>
    obtain ⟨lead, later, bytes⟩ := charBytes c
    have size := sizeOfBytes bytes
    cases offset with
    | zero => exact ⟨[], c :: text, rfl, rfl⟩
    | succ offset =>
      rw [isBoundary, byteLengthCons, bytesCons bytes, List.getElem?_cons_succ, Bool.and_eq_true,
        decide_eq_true_eq] at boundary
      obtain ⟨within, begins⟩ := boundary
      by_cases inside : offset < later.length
      · -- a byte that goes on with the character
        rw [List.getElem?_append_left inside, List.getElem?_eq_getElem inside, Option.all_some,
          bytes.continues _ (List.getElem_mem inside)] at begins
        cases begins
      · rw [List.getElem?_append_right (Nat.le_of_not_lt inside)] at begins
        have rest : isBoundary text (offset - later.length) = true := by
          rw [isBoundary, begins, Bool.and_true, decide_eq_true_eq]
          omega
        obtain ⟨front, back, rfl, length⟩ := ih rest
        refine ⟨c :: front, back, rfl, ?_⟩
        rw [byteLengthCons, length]
        omega

theorem boundaryIff :
    isBoundary text offset = true ↔ ∃ front back, text = front ++ back ∧ byteLength front = offset := by
  refine ⟨boundaryParts, fun parts => ?_⟩
  obtain ⟨front, back, rfl, rfl⟩ := parts
  exact boundaryAfter front back

theorem splitBytesAfter (front back : List Char) :
    splitBytes (front ++ back) (byteLength front) = (front, back) := by
  induction front with
  | nil =>
    cases back with
    | nil => rfl
    | cons c back => rfl
  | cons c front ih =>
    have positive := c.utf8Size_pos
    have some : byteLength (c :: front) ≠ 0 := by
      rw [byteLengthCons]
      omega
    rw [List.cons_append, splitBytes, if_neg some, byteLengthCons, Nat.add_sub_cancel_left, ih]

theorem cutAfter (front back : List Char) : cutAt (front ++ back) (byteLength front) = .ok (front, back) := by
  rw [cutAt, boundaryAfter, if_pos rfl, splitBytesAfter]

theorem cutIff : cutAt text offset = .ok (front, back) ↔ text = front ++ back ∧ byteLength front = offset := by
  refine ⟨fun cut => ?_, fun parts => ?_⟩
  · rw [cutAt] at cut
    split at cut
    · rename_i boundary
      obtain ⟨first, rest, rfl, rfl⟩ := boundaryIff.1 boundary
      rw [splitBytesAfter] at cut
      cases cut
      exact ⟨rfl, rfl⟩
    · cases cut
  · obtain ⟨rfl, rfl⟩ := parts
    exact cutAfter front back

theorem digitIff : c.isDigit = true ↔ 48 ≤ c.toNat ∧ c.toNat ≤ 57 := Char.isDigit_iff_toNat

theorem digitAscii (digit : c.isDigit = true) : c.toNat < 128 := by
  have bounds := digitIff.1 digit
  omega

theorem asciiByte (ascii : c.toNat < 128) : (UInt8.ofNat c.toNat).toNat = c.toNat :=
  UInt8.toNat_ofNat_of_lt' (Nat.lt_trans ascii (by decide))

theorem digitByte (bytes : CharBytes c lead later) : isDigitByte lead = c.isDigit := by
  rw [Bool.eq_iff_iff, digitIff, isDigitByte, Bool.and_eq_true, decide_eq_true_eq, decide_eq_true_eq]
  by_cases ascii : c.toNat < 128
  · rw [(bytes.ascii ascii).1, asciiByte ascii]
  · have beyond := bytes.beyond (Nat.le_of_not_lt ascii)
    omega

theorem leadIff (bytes : CharBytes d lead later) (ascii : c.toNat < 128) :
    lead = UInt8.ofNat c.toNat ↔ d = c := by
  refine ⟨fun same => ?_, fun same => ?_⟩
  · have value : lead.toNat = c.toNat := by rw [same, asciiByte ascii]
    by_cases other : d.toNat < 128
    · rw [(bytes.ascii other).1, asciiByte other] at value
      exact Char.toNat_inj.1 value
    · have beyond := bytes.beyond (Nat.le_of_not_lt other)
      omega
  · subst same
    exact (bytes.ascii ascii).1

theorem digitsAgree (text : List Char) : digitsLength text = (text.takeWhile Char.isDigit).length := by
  induction text with
  | nil => rfl
  | cons c text ih =>
    obtain ⟨lead, later, bytes⟩ := charBytes c
    have same := digitByte bytes
    cases digit : c.isDigit with
    | false => simp [digitsLength, bytesCons bytes, same, digit]
    | true =>
      rw [digitsLength] at ih
      simp [digitsLength, bytesCons bytes, same, digit, (bytes.ascii (digitAscii digit)).2, ih]

theorem asciiLength (ascii : ∀ c ∈ word, c.toNat < 128) : byteLength word = word.length := by
  induction word with
  | nil => rfl
  | cons c word ih =>
    obtain ⟨lead, later, bytes⟩ := charBytes c
    obtain ⟨first, rest⟩ := List.forall_mem_cons.1 ascii
    have size := sizeOfBytes bytes
    rw [(bytes.ascii first).2] at size
    rw [byteLengthCons, ih rest, size, List.length_cons, List.length_nil, Nat.add_comm]

theorem standsAfter (ascii : c.toNat < 128) (front back : List Char) :
    standsAt c (front ++ back) (byteLength front) = (back.head? == some c) := by
  rw [standsAt, byteAfter]
  cases back with
  | nil => rfl
  | cons d back =>
    obtain ⟨lead, later, bytes⟩ := charBytes d
    rw [bytesCons bytes, List.head?_cons, List.head?_cons, Bool.eq_iff_iff, beq_iff_eq, beq_iff_eq,
      Option.some_inj, Option.some_inj]
    exact leadIff bytes ascii

end ArithmeticFormula
