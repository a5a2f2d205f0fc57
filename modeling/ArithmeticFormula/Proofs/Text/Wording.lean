import ArithmeticFormula.Proofs.Number.Written

/-! Texts made of fixed words with fields between them. A field ends where the words after it begin, only the one
before the ending may hold anything. Main statements: a text has one list of fields under a wording, and it is
written by at most one of two wordings whose words part. -/
namespace ArithmeticFormula

/- The words in turn, each with a field after it, and an open field with the ending if there is one. -/
inductive Worded : List String → Option String → List String → List Char → Prop where
  | closed {word : String} : Worded [word] none [] word.toList
  | opened {word ending field : String} :
      Worded [word] (some ending) [field] (word.toList ++ (field.toList ++ ending.toList))
  | field {word next field : String} {stop : Char} {words fields : List String} {ending : Option String}
      {text : List Char} (head : next.toList.head? = some stop) (stops : stop ∉ field.toList)
      (later : Worded (next :: words) ending fields text) :
      Worded (word :: next :: words) ending (field :: fields) (word.toList ++ (field.toList ++ text))

variable {word : String} {words others fields otherFields : List String} {ending otherEnding : Option String}
variable {text otherText : List Char} {stop : Char}

theorem wordedBegins (worded : Worded (word :: words) ending fields text) :
    ∃ rest, text = word.toList ++ rest := by
  cases worded with
  | closed => exact ⟨[], (List.append_nil _).symm⟩
  | opened => exact ⟨_, rfl⟩
  | field => exact ⟨_, rfl⟩

theorem wordedHead (worded : Worded (word :: words) ending fields text) (head : word.toList.head? = some stop) :
    ∃ rest, text = stop :: rest := by
  obtain ⟨rest, rfl⟩ := wordedBegins worded
  obtain ⟨tail, begins⟩ := List.head?_eq_some_iff.1 head
  exact ⟨tail ++ rest, by rw [begins, List.cons_append]⟩

theorem fieldsEnd {field other rest tail : List Char} (stops : stop ∉ field) (stopsOther : stop ∉ other)
    (same : field ++ stop :: rest = other ++ stop :: tail) : field = other ∧ stop :: rest = stop :: tail := by
  have within : ∀ {part : List Char}, stop ∉ part → ∀ c ∈ part, (c != stop) = true := by
    intro part absent c member
    exact bne_iff_ne.2 fun same => absent (same ▸ member)
  have ends : ∀ tail : List Char, ∀ c, (stop :: tail).head? = some c → (c != stop) = false := by
    intro tail c found
    cases found
    simp
  have first := spanWhole (within stops) (ends rest)
  have second := spanWhole (within stopsOther) (ends tail)
  rw [same] at first
  exact ⟨first.1.symm.trans second.1, first.2.symm.trans second.2⟩

theorem wordedUnique (first : Worded words ending fields text)
    (second : Worded words ending otherFields otherText) (same : text = otherText) : fields = otherFields := by
  induction first generalizing otherFields otherText with
  | closed =>
    cases second
    rfl
  | opened =>
    cases second
    rw [List.append_cancel_left_eq, List.append_cancel_right_eq] at same
    rw [String.toList_inj.1 same]
  | field head stops later ih =>
    cases second with
    | field headOther stopsOther laterOther =>
      cases head.symm.trans headOther
      obtain ⟨rest, rfl⟩ := wordedHead later head
      obtain ⟨tail, rfl⟩ := wordedHead laterOther head
      obtain ⟨sameField, sameRest⟩ := fieldsEnd stops stopsOther (List.append_cancel_left same)
      rw [String.toList_inj.1 sameField, ih laterOther sameRest]

def clash : List Char → List Char → Bool
  | c :: word, d :: other => c != d || clash word other
  | _, _ => false

theorem clashApart {front other : List Char} (clashes : clash front other = true) (rest tail : List Char) :
    front ++ rest ≠ other ++ tail := by
  induction front generalizing other with
  | nil => cases clashes
  | cons c front ih =>
    cases other with
    | nil => cases clashes
    | cons d other =>
      rw [clash, Bool.or_eq_true, bne_iff_ne] at clashes
      intro same
      obtain ⟨head, later⟩ := List.cons.inj same
      exact clashes.elim (absurd head) fun goes => ih goes later

def sameStop : List String → List String → Bool
  | word :: _, other :: _ => word.toList.head? == other.toList.head?
  | _, _ => false

def part : List String → List String → Bool
  | word :: words, other :: others =>
      clash word.toList other.toList || (word == other && sameStop words others && part words others)
  | _, _ => false

theorem wordedClash {other : String} (clashes : clash word.toList other.toList = true)
    (first : Worded (word :: words) ending fields text)
    (second : Worded (other :: others) otherEnding otherFields otherText) : text ≠ otherText := by
  obtain ⟨rest, rfl⟩ := wordedBegins first
  obtain ⟨tail, rfl⟩ := wordedBegins second
  exact clashApart clashes rest tail

theorem wordedApart (parts : part words others = true) (first : Worded words ending fields text)
    (second : Worded others otherEnding otherFields otherText) : text ≠ otherText := by
  induction first generalizing others otherFields otherText with
  | closed =>
    cases others with
    | nil => cases parts
    | cons other others => exact wordedClash (by simpa [part, sameStop] using parts) .closed second
  | opened =>
    cases others with
    | nil => cases parts
    | cons other others => exact wordedClash (by simpa [part, sameStop] using parts) .opened second
  | @field word next field stop words fields ending text head stops later ih =>
    cases others with
    | nil => cases parts
    | cons other others =>
      simp only [part, Bool.or_eq_true, Bool.and_eq_true, beq_iff_eq] at parts
      obtain clashes | ⟨⟨rfl, stopping⟩, parts⟩ := parts
      · exact wordedClash clashes (.field head stops later) second
      · -- the same words, then a field that ends at the same character in both
        cases second with
        | closed | opened => cases stopping
        | @field _ following other stopOther _ _ _ tail headOther stopsOther laterOther =>
          have ends : stop = stopOther := by
            rw [sameStop, head, headOther, beq_iff_eq] at stopping
            exact Option.some.inj stopping
          subst ends
          intro same
          obtain ⟨rest, rfl⟩ := wordedHead later head
          obtain ⟨tail, rfl⟩ := wordedHead laterOther headOther
          exact ih parts laterOther (fieldsEnd stops stopsOther (List.append_cancel_left same)).2

end ArithmeticFormula
