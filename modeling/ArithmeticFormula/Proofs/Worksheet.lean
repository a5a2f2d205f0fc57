import ArithmeticFormula.Proofs.Formula.Value
import ArithmeticFormula.Worksheet

/-! What a worksheet keeps through a session. Every formula in it was built, so that equal ones have the same
canonical text and the collection holds each once. Main statements: one command keeps this and so does a run of
commands, no answer of a run is a fault that only broken formulas have, a command that is refused changes
nothing, and commands that bind other names leave the value of a formula as it is. -/
namespace ArithmeticFormula

variable {w : Worksheet} {s : FormulaSet} {f g : Formula} {command : Worksheet.Command}
variable {commands : List Worksheet.Command} {name slot : String}
variable {act : Formula → Worksheet × Worksheet.Answer}

structure FormulaSet.Sound (s : FormulaSet) : Prop where
  built : ∀ f ∈ s.members, f.Built .asWritten
  apart : s.members.Pairwise fun f g => (f == g) = false

namespace FormulaSet

theorem emptySound : empty.Sound := ⟨List.forall_mem_nil _, .nil⟩

theorem containsIff (sound : s.Sound) (built : f.Built .asWritten) : s.contains f = true ↔ f ∈ s.members := by
  rw [contains, List.any_eq_true]
  constructor
  · rintro ⟨g, member, same⟩
    rwa [← (equalIff (sound.built g member) built).1 same]
  · exact fun member => ⟨f, member, (equalIff built built).2 rfl⟩

theorem insertSound (sound : s.Sound) (built : f.Built .asWritten) : (s.insert f).Sound := by
  unfold insert
  split
  · exact sound
  · rename_i absent
    refine ⟨List.forall_mem_cons.2 ⟨built, sound.built⟩, List.pairwise_cons.2 ⟨?_, sound.apart⟩⟩
    intro g member
    rw [← Bool.not_eq_true, equalIff built (sound.built g member)]
    rintro rfl
    exact absent ((containsIff sound built).2 member)

theorem memInsert (sound : s.Sound) (built : f.Built .asWritten) :
    g ∈ (s.insert f).members ↔ g = f ∨ g ∈ s.members := by
  unfold insert
  split
  · rename_i present
    have member := (containsIff sound built).1 present
    exact ⟨.inr, fun given => given.elim (fun same => same ▸ member) id⟩
  · exact List.mem_cons

theorem eraseSound (sound : s.Sound) (f : Formula) : (s.erase f).Sound :=
  ⟨fun g member => sound.built g (List.mem_of_mem_filter member), sound.apart.filter _⟩

theorem memErase (sound : s.Sound) (built : f.Built .asWritten) :
    g ∈ (s.erase f).members ↔ g ∈ s.members ∧ g ≠ f := by
  simp only [erase, List.mem_filter, Bool.not_eq_true', and_congr_right_iff]
  intro member
  rw [← Bool.not_eq_true, equalIff (sound.built g member) built]

theorem insertSize (s : FormulaSet) (f : Formula) :
    (s.insert f).size = s.size + if s.contains f then 0 else 1 := by
  unfold insert
  split <;> rfl

theorem insertTextsSize (s : FormulaSet) (texts : List String) :
    (s.insertTexts texts).2.size = s.size + (s.insertTexts texts).1.countP fun answer =>
      answer matches .ok true := by
  induction texts generalizing s with
  | nil => rfl
  | cons text rest ih =>
    unfold insertTexts
    split
    · rename_i f built
      rw [ih, insertSize, List.countP_cons]
      cases s.contains f with
      | true => simp
      | false =>
        simp
        omega
    · rw [ih, List.countP_cons]
      simp

theorem insertTextsSound (sound : s.Sound) (texts : List String) : (s.insertTexts texts).2.Sound ∧
    ∀ f, f ∈ (s.insertTexts texts).2.members ↔
      f ∈ s.members ∨ ∃ text ∈ texts, Formula.ofText text = .ok f := by
  induction texts generalizing s with
  | nil => exact ⟨sound, by simp [insertTexts]⟩
  | cons text rest ih =>
    unfold insertTexts
    split
    · rename_i f built
      have fromText := builtOfText built
      obtain ⟨kept, members⟩ := ih (insertSound sound fromText)
      refine ⟨kept, fun g => ?_⟩
      rw [members, memInsert sound fromText]
      simp [built, or_assoc, or_left_comm, eq_comm]
    · rename_i fault failed
      obtain ⟨kept, members⟩ := ih sound
      refine ⟨kept, fun g => ?_⟩
      rw [members]
      simp [failed]

end FormulaSet

namespace Worksheet

structure Sound (w : Worksheet) : Prop where
  slots : ∀ slot f, w.slots.get? slot = some f → f.Built .asWritten
  collection : w.collection.Sound

/- Formulas that are told were built, equal ones are hashed alike, and evaluation has no faults but its own. -/
def Answer.Sound : Answer → Prop
  | displayed f => f.Built .asWritten
  | evaluated (.error fault) => fault = .divideByZero ∨ ∃ name, fault = .undefinedVariable name
  | compared equal sameHash => equal = true → sameHash ≠ some false
  | absent | failed _ | cleared _ | bound _ | evaluated (.ok _) | inserted _ _ | contained _ | removed _ _ =>
      True

def after (w : Worksheet) (commands : List Command) : Worksheet :=
  commands.foldl (fun w command => (w.perform command).1) w

theorem emptySound : empty.Sound := ⟨(fun _ _ found => nomatch found), FormulaSet.emptySound⟩

theorem placeSound (sound : w.Sound) (slot : String) {outcome : Except FormatFault Formula}
    (built : ∀ f, outcome = .ok f → f.Built .asWritten) :
    (w.place slot outcome).1.Sound ∧ (w.place slot outcome).2.Sound := by
  cases outcome with
  | error fault => exact ⟨sound, trivial⟩
  | ok f =>
    refine ⟨⟨fun other g found => ?_, sound.collection⟩, built f rfl⟩
    simp only [place, Slots.getPut] at found
    split at found
    · cases found
      exact built f rfl
    · exact sound.slots other g found

theorem withFormulaCases {motive : Worksheet × Answer → Prop} (vacant : motive (w, .absent))
    (holds : ∀ f, w.slots.get? slot = some f → motive (act f)) : motive (w.withFormula slot act) := by
  unfold withFormula
  cases found : w.slots.get? slot with
  | none => exact vacant
  | some f => exact holds f found

theorem withFormulaSound (sound : w.Sound)
    (acts : ∀ f, f.Built .asWritten → (act f).1.Sound ∧ (act f).2.Sound) :
    (w.withFormula slot act).1.Sound ∧ (w.withFormula slot act).2.Sound := by
  apply withFormulaCases (motive := fun result => result.1.Sound ∧ result.2.Sound)
  · exact ⟨sound, trivial⟩
  · exact fun f held => acts f (sound.slots slot f held)

theorem evaluatedSound (built : f.Built .asWritten) (lookup : Lookup) :
    (Answer.evaluated (f.evaluate lookup)).Sound := by
  cases came : f.evaluate lookup with
  | ok value => trivial
  | error fault =>
    obtain zero | ⟨name, _, _, same⟩ := evaluateFault built came
    · exact .inl zero
    · exact .inr ⟨name, same⟩

theorem comparedSound (builtLeft : f.Built .asWritten) (builtRight : g.Built .asWritten) :
    (Answer.compared (f == g) (some (f.sameHash g))).Sound := by
  intro same
  obtain rfl := (equalIff builtLeft builtRight).1 same
  simp [Formula.sameHash]

theorem performSound (sound : w.Sound) (command : Command) :
    (w.perform command).1.Sound ∧ (w.perform command).2.Sound := by
  cases command with
  | build slot naming text =>
    exact placeSound sound slot fun f built => builtAsWritten (builtOfText built)
  | rebuild slot source =>
    exact withFormulaSound sound fun f built => placeSound sound slot fun g again => builtOfText again
  | copy slot source =>
    refine withFormulaSound sound fun f built => placeSound sound slot fun g same => ?_
    cases same
    exact built
  | clear slot =>
    refine ⟨⟨fun other f found => ?_, sound.collection⟩, trivial⟩
    simp only [perform, Slots.getClear] at found
    split at found
    · cases found
    · exact sound.slots other f found
  | display slot => exact withFormulaSound sound fun f built => ⟨sound, built⟩
  | bind | unbind | setDefault => exact ⟨⟨sound.slots, sound.collection⟩, trivial⟩
  | evaluate slot scope => exact withFormulaSound sound fun f built => ⟨sound, evaluatedSound built _⟩
  | assign slot name scope =>
    refine withFormulaSound sound fun f built => ?_
    have answered := evaluatedSound built (w.bindings.lookup scope)
    generalize f.evaluate (w.bindings.lookup scope) = result at answered ⊢
    cases result with
    | ok value => exact ⟨⟨sound.slots, sound.collection⟩, trivial⟩
    | error fault => exact ⟨sound, answered⟩
  | compare first second =>
    simp only [perform]
    split
    · rename_i f g left right
      exact ⟨sound, comparedSound (sound.slots first f left) (sound.slots second g right)⟩
    · exact ⟨sound, fun _ => nofun⟩
    · exact ⟨sound, nofun⟩
  | insert slot =>
    exact withFormulaSound sound fun f built =>
      ⟨⟨sound.slots, FormulaSet.insertSound sound.collection built⟩, trivial⟩
  | contains slot => exact withFormulaSound sound fun f built => ⟨sound, trivial⟩
  | remove slot =>
    exact withFormulaSound sound fun f built =>
      ⟨⟨sound.slots, FormulaSet.eraseSound sound.collection f⟩, trivial⟩

theorem runSound (sound : w.Sound) (commands : List Command) :
    (w.after commands).Sound ∧ ∀ answer ∈ w.answers commands, answer.Sound := by
  induction commands generalizing w with
  | nil => exact ⟨sound, List.forall_mem_nil _⟩
  | cons command rest ih =>
    obtain ⟨kept, answered⟩ := performSound sound command
    obtain ⟨last, later⟩ := ih kept
    exact ⟨last, List.forall_mem_cons.2 ⟨answered, later⟩⟩

theorem sessionSound (commands : List Command) :
    (empty.after commands).Sound ∧ ∀ answer ∈ empty.answers commands, answer.Sound :=
  runSound emptySound commands

theorem rebuildCopies (sound : w.Sound) (slot source : String) :
    w.perform (.rebuild slot source) = w.perform (.copy slot source) := by
  simp only [perform, withFormula]
  cases found : w.slots.get? source with
  | none => rfl
  | some f => simp only [Option.elim_some, ofCanonicalAsWritten (sound.slots source f found)]

theorem collectionHolds (sound : w.Sound) (held : w.slots.get? slot = some f) (g : Formula) :
    (g ∈ (w.perform (.insert slot)).1.collection.members ↔ g = f ∨ g ∈ w.collection.members) ∧
      (g ∈ (w.perform (.remove slot)).1.collection.members ↔ g ∈ w.collection.members ∧ g ≠ f) := by
  have built := sound.slots slot f held
  simp only [perform, withFormula, held, Option.elim_some]
  exact ⟨FormulaSet.memInsert sound.collection built, FormulaSet.memErase sound.collection built⟩

def Answer.Refuses : Answer → Prop
  | absent | failed _ | evaluated (.error _) => True
  | displayed _ | cleared _ | bound _ | evaluated (.ok _) | compared _ _ | inserted _ _ | contained _
  | removed _ _ => False

theorem placeRefused {outcome : Except FormatFault Formula} (refused : (w.place slot outcome).2.Refuses) :
    (w.place slot outcome).1 = w := by
  cases outcome with
  | error fault => rfl
  | ok f => cases refused

theorem withFormulaRefused (refused : (w.withFormula slot act).2.Refuses)
    (acts : ∀ f, (act f).2.Refuses → (act f).1 = w) : (w.withFormula slot act).1 = w := by
  revert refused
  apply withFormulaCases (motive := fun result => result.2.Refuses → result.1 = w)
  · exact fun _ => rfl
  · exact fun f _ => acts f

theorem performRefused (refused : (w.perform command).2.Refuses) : (w.perform command).1 = w := by
  cases command with
  | build => exact placeRefused refused
  | rebuild | copy => exact withFormulaRefused refused fun f => placeRefused
  | display | evaluate | contains => exact withFormulaRefused refused fun _ _ => rfl
  | insert | remove => exact withFormulaRefused refused fun _ given => nomatch given
  | assign slot name scope =>
    refine withFormulaRefused refused fun f given => ?_
    cases came : f.evaluate (w.bindings.lookup scope) with
    | ok value => simp only [came, Answer.Refuses] at given
    | error fault => rfl
  | compare first second =>
    simp only [perform]
    split <;> rfl
  | clear | bind | unbind | setDefault => cases refused

def Command.rebinds : Command → List String
  | bind name _ | unbind name | assign _ name _ => [name]
  | build _ _ _ | rebuild _ _ | copy _ _ | clear _ | display _ | setDefault _ | evaluate _ _ | compare _ _
  | insert _ | contains _ | remove _ => []

theorem placeLookup (w : Worksheet) (slot : String) (outcome : Except FormatFault Formula) :
    (w.place slot outcome).1.bindings.lookup .bound name = w.bindings.lookup .bound name := by
  cases outcome <;> rfl

theorem withFormulaLookup
    (acts : ∀ f, (act f).1.bindings.lookup .bound name = w.bindings.lookup .bound name) :
    (w.withFormula slot act).1.bindings.lookup .bound name = w.bindings.lookup .bound name := by
  apply withFormulaCases
    (motive := fun result => result.1.bindings.lookup .bound name = w.bindings.lookup .bound name)
  · rfl
  · exact fun f _ => acts f

theorem lookupBindOther (b : Bindings) {other : String} (value : Binary64) (apart : name ≠ other) :
    (b.bind other value).lookup .bound name = b.lookup .bound name := by
  rw [Bindings.lookup, Bindings.bind, Slots.getPut, if_neg apart]
  rfl

theorem lookupKept (apart : name ∉ command.rebinds) :
    (w.perform command).1.bindings.lookup .bound name = w.bindings.lookup .bound name := by
  cases command with
  | build slot naming text => exact placeLookup w slot _
  | rebuild slot source | copy slot source =>
    exact withFormulaLookup fun f => placeLookup w slot _
  | display | evaluate | insert | contains | remove => exact withFormulaLookup fun f => rfl
  | clear | setDefault => rfl
  | compare first second =>
    simp only [perform]
    split <;> rfl
  | bind other value => exact lookupBindOther _ _ (List.ne_of_not_mem_cons apart)
  | unbind other =>
    have kept := Slots.getClear w.bindings.values other name
    rwa [if_neg (List.ne_of_not_mem_cons apart)] at kept
  | assign slot other scope =>
    refine withFormulaLookup fun f => ?_
    cases f.evaluate (w.bindings.lookup scope) with
    | ok value => exact lookupBindOther _ _ (List.ne_of_not_mem_cons apart)
    | error fault => rfl

theorem lookupKeptAfter (apart : ∀ command ∈ commands, name ∉ command.rebinds) :
    (w.after commands).bindings.lookup .bound name = w.bindings.lookup .bound name := by
  induction commands generalizing w with
  | nil => rfl
  | cons command rest ih =>
    obtain ⟨head, tail⟩ := List.forall_mem_cons.1 apart
    exact (ih tail).trans (lookupKept head)

theorem evaluateKept {naming : Naming} (built : f.Built naming)
    (apart : ∀ command ∈ commands, ∀ name ∈ f.names, name ∉ command.rebinds) :
    f.evaluate ((w.after commands).bindings.lookup .bound) = f.evaluate (w.bindings.lookup .bound) := by
  refine Machine.runAgrees fun name member => ?_
  have named := (memNames built.settled).2 member
  exact lookupKeptAfter fun command inside => apart command inside name named

end Worksheet
end ArithmeticFormula
