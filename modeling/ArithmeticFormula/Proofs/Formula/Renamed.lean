import ArithmeticFormula.Machine
import ArithmeticFormula.Proofs.Formula.FirstFault
import ArithmeticFormula.Proofs.Machine.Lookups

/-! A build under a naming beside the build with names as written. A naming has a part only in what becomes
of a name: the walk, its neighbours and its parentheses are the same. Main statement: where all names are
taken the formula is the plain one with other names, and so is its evaluation; the first name that is not
taken is the fault if the plain build comes past it, and otherwise the fault is the plain one. -/
namespace ArithmeticFormula

def FormatFault.OfWhole : FormatFault → Prop
  | empty | noTokens | invalidStart _ | invalidEnd _ => True
  | _ => False

variable {naming : Naming} {place last : Place} {l : Lexeme} {lexemes front : List Lexeme}
variable {t : Token} {tokens : List Token} {fault : FormatFault} {text raw : String} {f : Formula}

theorem becomesRenamed (becomes : l.Becomes .asWritten t) (taken : ∀ raw, l = .name raw → naming.Takes raw) :
    l.Becomes naming (t.renamed naming.rename) := by
  cases becomes with
  | leftParen => exact .leftParen
  | rightParen => exact .rightParen
  | operator op => exact .operator op
  | number reads => exact .number reads
  | @name raw rawShape shape admitted =>
    obtain ⟨renamedShape, renamedAdmitted⟩ := taken raw rfl
    exact .name rawShape renamedShape renamedAdmitted

theorem walkRenamed (walked : Walks .asWritten place front last tokens)
    (taken : ∀ raw, .name raw ∈ front → naming.Takes raw) :
    Walks naming place front last (tokens.map (·.renamed naming.rename)) := by
  induction walked with
  | done => exact .done
  | next checked opens becomes later ih =>
    refine .next checked opens (becomesRenamed becomes ?_)
      (ih fun raw member => taken raw (List.mem_cons_of_mem _ member))
    rintro raw rfl
    exact taken raw List.mem_cons_self

/- As written, every name is taken, so that no refusal is one of the naming. -/
theorem refusesRenamed (refused : place.Refuses .asWritten l fault)
    (rawShape : ∀ raw, l = .name raw → isName raw = true) : place.Refuses naming l fault := by
  cases refused with
  | neighbour refused => exact .neighbour refused
  | depth checked refused => exact .depth checked refused
  | token checked opens refused =>
    cases l with
    | name raw =>
      rw [toTokenName, Naming.resolveAsWritten (rawShape raw rfl)] at refused
      cases refused
    | number | stray | leftParen | rightParen | operator => exact .token checked opens refused

theorem takenBuilds (built : Formula.ofText text = .ok f)
    (taken : ∀ raw, .name raw ∈ lexemesOf text → naming.Takes raw) :
    Formula.ofTextWith naming text = .ok (.ofTokens (f.tokens.map (·.renamed naming.rename))) := by
  obtain ⟨framed, place, tokens, walked⟩ := builtWalked built
  rw [Formula.ofText, ofTextFramed framed, tokensFromEnd walked] at built
  split at built
  · rename_i closed
    cases built
    rw [ofTextFramed framed, tokensFromEnd (walkRenamed walked taken), if_pos closed]
    rfl
  · cases built

theorem namesRenamed {g : Formula} {rename : String → String} (settled : f = .ofTokens f.tokens)
    (settledRenamed : g = .ofTokens g.tokens) (same : g.tokens = f.tokens.map (·.renamed rename))
    (name : String) : name ∈ g.names ↔ ∃ raw ∈ f.names, rename raw = name := by
  simp only [memNames settled, memNames settledRenamed, same, List.mem_map]
  refine ⟨fun given => ?_, fun given => ?_⟩
  · obtain ⟨t, member, renamed⟩ := given
    cases t with
    | name raw => exact ⟨raw, member, Token.name.inj renamed⟩
    | number | operator | leftParen | rightParen => cases renamed
  · obtain ⟨raw, member, rfl⟩ := given
    exact ⟨.name raw, member, rfl⟩

theorem evaluateRenamed {g : Formula} {rename : String → String}
    (same : g.tokens = f.tokens.map (·.renamed rename)) (arithmetic : Arithmetic) (lookup : Lookup) :
    g.evaluateWith arithmetic lookup =
      (f.evaluateWith arithmetic fun name => lookup (rename name)).mapError (·.renamed rename) := by
  rw [Formula.evaluateWith, same]
  exact Machine.runRenamed

theorem firstNotTaken {back : List Lexeme} (parts : lexemesOf text = front ++ .name raw :: back)
    (taken : ∀ earlier, .name earlier ∈ front → naming.Takes earlier) (refused : ¬ naming.Takes raw)
    (past : (∃ f, Formula.ofText text = .ok f) ∨
      ∃ p fault, StopsAt .asWritten text p fault ∧ front.length < p) :
    StopsAt naming text front.length (naming.refusal raw) := by
  obtain ⟨framed, place, before, after, t, walked, checked, opens, _⟩ := walkedPast parts past
  have resolved := (Naming.resolveError (shapeAt parts raw rfl)).2 ⟨refused, rfl⟩
  exact .within framed parts (walkRenamed walked taken)
    (.token checked opens (toTokenName naming raw ▸ Outcome.mapError.2 resolved))

theorem stopRenamed {p : Nat} (stops : StopsAt .asWritten text p fault)
    (taken : ∀ raw, .name raw ∈ (lexemesOf text).take p → naming.Takes raw) :
    StopsAt naming text p fault := by
  cases stops with
  | atOnce stops => exact .atOnce stops
  | within framed parts walked refused =>
    rw [parts, List.take_left] at taken
    exact .within framed parts (walkRenamed walked taken) (refusesRenamed refused (shapeAt parts))
  | unclosed framed walked opened =>
    rw [List.take_length] at taken
    exact .unclosed framed (walkRenamed walked taken) opened

theorem wholeAtOnce (failed : Formula.ofTextWith naming text = .error fault) (whole : fault.OfWhole) :
    StopsAtOnce text fault := by
  obtain ⟨p, stops⟩ := ofTextError.1 failed
  cases stops with
  | atOnce stops => exact stops
  | within framed parts walked refused => cases refusedLocated walked (shapeAt parts) refused <;> cases whole
  | unclosed => cases whole

theorem unclosedAtEnd {p count : Nat} (stops : StopsAt naming text p (.unclosed count)) :
    p = (lexemesOf text).length := by
  cases stops with
  | atOnce stops => cases stops
  | within framed parts walked refused => cases refusedLocated walked (shapeAt parts) refused
  | unclosed => rfl

theorem buildRenamed (naming : Naming) (text : String) :
    (∀ f, Formula.ofText text = .ok f → (∀ raw, .name raw ∈ lexemesOf text → naming.Takes raw) →
      ∃ g, Formula.ofTextWith naming text = .ok g ∧
        g.tokens = f.tokens.map (·.renamed naming.rename) ∧
        (∀ name, name ∈ g.names ↔ ∃ raw ∈ f.names, naming.rename raw = name) ∧
        ∀ arithmetic lookup, g.evaluateWith arithmetic lookup =
          (f.evaluateWith arithmetic fun name => lookup (naming.rename name)).mapError
            (·.renamed naming.rename)) ∧
    (∀ front raw back, lexemesOf text = front ++ .name raw :: back →
      (∀ earlier, .name earlier ∈ front → naming.Takes earlier) → ¬ naming.Takes raw →
      ((∃ f, Formula.ofText text = .ok f) ∨
        ∃ p fault, StopsAt .asWritten text p fault ∧ front.length < p) →
      Formula.ofTextWith naming text = .error (naming.refusal raw)) ∧
    (∀ p fault, StopsAt .asWritten text p fault →
      (∀ raw, .name raw ∈ (lexemesOf text).take p → naming.Takes raw) →
      Formula.ofTextWith naming text = .error fault) ∧
    (∀ fault, Formula.ofText text = .error fault → ∃ p, StopsAt .asWritten text p fault ∧
      (∀ q other, StopsAt .asWritten text q other → q = p) ∧
      ∀ count, fault = .unclosed count → p = (lexemesOf text).length) ∧
    ∀ fault, fault.OfWhole →
      (Formula.ofTextWith naming text = .error fault ↔ Formula.ofText text = .error fault) := by
  refine ⟨fun f built taken => ?_, fun front raw back parts taken refused past => ?_,
    fun p fault stops taken => ?_, fun fault failed => ?_, fun fault whole => ?_⟩
  · exact ⟨_, takenBuilds built taken, rfl, namesRenamed (ofTextOk.1 built).2.2 rfl rfl, evaluateRenamed rfl⟩
  · exact ofTextError.2 ⟨_, firstNotTaken parts taken refused past⟩
  · exact ofTextError.2 ⟨p, stopRenamed stops taken⟩
  · obtain ⟨p, stops⟩ := ofTextError.1 failed
    refine ⟨p, stops, fun q other again => (stopsUnique again stops).1, ?_⟩
    rintro count rfl
    exact unclosedAtEnd stops
  · exact ⟨fun failed => ofTextAtOnce (wholeAtOnce failed whole),
      fun failed => ofTextAtOnce (wholeAtOnce failed whole)⟩

end ArithmeticFormula
