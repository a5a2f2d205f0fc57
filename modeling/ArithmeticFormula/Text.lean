/-! Characters and texts. Blank characters are those with the Unicode property White_Space; controls and
format characters outside the property, such as U+001C or the zero width space, are not blank. A name is
an ASCII letter or an underscore, then ASCII letters, digits and underscores. Sets of texts are lists in
increasing order. -/
namespace ArithmeticFormula

def blankRanges : List (Nat × Nat) :=
  [(0x0009, 0x000D), (0x0020, 0x0020), (0x0085, 0x0085), (0x00A0, 0x00A0), (0x1680, 0x1680),
   (0x2000, 0x200A), (0x2028, 0x2029), (0x202F, 0x202F), (0x205F, 0x205F), (0x3000, 0x3000)]

def isBlank (c : Char) : Bool :=
  blankRanges.any fun range => range.1 ≤ c.toNat && c.toNat ≤ range.2

def dropBlank (text : List Char) : List Char := text.dropWhile isBlank

theorem dropBlankLength (text : List Char) : (dropBlank text).length ≤ text.length :=
  (List.dropWhile_suffix isBlank).length_le

def isNameStart (c : Char) : Bool := c.isAlpha || c == '_'

def isNamePart (c : Char) : Bool := c.isAlphanum || c == '_'

def isNameChars : List Char → Bool
  | [] => false
  | first :: rest => isNameStart first && rest.all isNamePart

def isName (text : String) : Bool := isNameChars text.toList

theorem nameStartIsPart {c : Char} (start : isNameStart c = true) : isNamePart c = true := by
  simp only [isNameStart, isNamePart, Char.isAlphanum, Bool.or_eq_true] at start ⊢
  rcases start with alpha | under
  · exact .inl (.inl alpha)
  · exact .inr under

theorem isNameAll {text : String} (shape : isName text = true) :
    ∀ c ∈ text.toList, isNamePart c = true := by
  rw [isName] at shape
  cases letters : text.toList with
  | nil => simp
  | cons first rest =>
    rw [letters] at shape
    simp only [isNameChars, Bool.and_eq_true, List.all_eq_true] at shape
    exact List.forall_mem_cons.2 ⟨nameStartIsPart shape.1, shape.2⟩

structure TextSet where
  texts : List String
  increasing : texts.Pairwise (· < ·)
  deriving DecidableEq, Repr

namespace TextSet

def place (text : String) : List String → List String
  | [] => [text]
  | first :: rest =>
      if text < first then text :: first :: rest
      else if text = first then first :: rest
      else first :: place text rest

theorem memPlace {text other : String} {texts : List String} :
    other ∈ place text texts ↔ other = text ∨ other ∈ texts := by
  induction texts with
  | nil => simp [place]
  | cons first rest ih =>
    unfold place
    split
    · simp
    · split
      · rename_i same
        simp [same]
      · simp [ih, or_left_comm]

theorem placeIncreasing {text : String} {texts : List String} (increasing : texts.Pairwise (· < ·)) :
    (place text texts).Pairwise (· < ·) := by
  induction texts with
  | nil => exact List.pairwise_singleton _ _
  | cons first rest ih =>
    obtain ⟨least, later⟩ := List.pairwise_cons.1 increasing
    unfold place
    split
    · rename_i below
      refine List.pairwise_cons.2 ⟨?_, increasing⟩
      intro other member
      rcases List.mem_cons.1 member with rfl | inside
      · exact below
      · exact String.lt_trans below (least other inside)
    · split
      · exact increasing
      · rename_i notBelow apart
        refine List.pairwise_cons.2 ⟨?_, ih later⟩
        intro other member
        rcases memPlace.1 member with rfl | inside
        · refine String.not_le.1 fun above => apart ?_
          exact String.le_antisymm above (String.not_lt.1 notBelow)
        · exact least other inside

def empty : TextSet := ⟨[], .nil⟩

def insert (s : TextSet) (text : String) : TextSet := ⟨place text s.texts, placeIncreasing s.increasing⟩

def ofList (texts : List String) : TextSet := texts.foldl insert empty

instance : Membership String TextSet := ⟨fun s text => text ∈ s.texts⟩

theorem memTexts {s : TextSet} {text : String} : text ∈ s.texts ↔ text ∈ s := .rfl

@[simp] theorem notMemEmpty (text : String) : text ∉ empty := List.not_mem_nil

@[simp] theorem memInsert {s : TextSet} {text other : String} :
    other ∈ s.insert text ↔ other = text ∨ other ∈ s := memPlace

theorem memInserted {s : TextSet} {texts : List String} {text : String} :
    text ∈ texts.foldl insert s ↔ text ∈ s ∨ text ∈ texts := by
  induction texts generalizing s with
  | nil => simp
  | cons first rest ih =>
    rw [List.foldl_cons, ih, memInsert, List.mem_cons, or_assoc, or_left_comm]

theorem memOfList {text : String} {texts : List String} : text ∈ ofList texts ↔ text ∈ texts := by
  rw [ofList, memInserted]
  simp

theorem nodup (s : TextSet) : s.texts.Nodup := by
  refine s.increasing.imp ?_
  rintro a _ below rfl
  exact String.lt_irrefl a below

end TextSet

def orderedTexts (texts : List String) : List String := (TextSet.ofList texts).texts

@[simp] theorem memOrderedTexts {text : String} {texts : List String} :
    text ∈ orderedTexts texts ↔ text ∈ texts :=
  TextSet.memOfList

end ArithmeticFormula
