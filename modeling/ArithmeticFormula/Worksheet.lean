import ArithmeticFormula.Formula
import ArithmeticFormula.Machine

/-! A worksheet keeps formulas in named slots, a collection of formulas that holds equal ones once, and
bindings under which they are evaluated. A default may stand in for every name not bound; a lookup uses it
only if asked to. A command that needs the formula of an empty slot changes nothing. A failed build leaves
its slot as it was, and an assignment binds its name only to a value. -/
namespace ArithmeticFormula

structure Slots (α : Type) where
  entries : List (String × α)
  deriving DecidableEq, Repr

namespace Slots

variable {α : Type}

def empty : Slots α := ⟨[]⟩

def size (s : Slots α) : Nat := s.entries.length

def get? (s : Slots α) (slot : String) : Option α := s.entries.lookup slot

def clear (s : Slots α) (slot : String) : Slots α :=
  ⟨s.entries.filter fun entry => entry.1 != slot⟩

def put (s : Slots α) (slot : String) (value : α) : Slots α :=
  ⟨(slot, value) :: (s.clear slot).entries⟩

theorem getClear (s : Slots α) (slot other : String) :
    (s.clear slot).get? other = if other = slot then none else s.get? other := by
  obtain ⟨entries⟩ := s
  simp only [get?, clear]
  induction entries with
  | nil => simp
  | cons entry rest ih =>
    obtain ⟨key, value⟩ := entry
    by_cases here : other = key
    · subst key
      by_cases same : other = slot
      · simpa [same] using ih
      · simp [same]
    · have miss : (other == key) = false := beq_false_of_ne here
      by_cases same : key = slot
      · simpa [same, List.lookup_cons, same ▸ miss] using ih
      · simpa [same, List.lookup_cons, miss] using ih

theorem getPut (s : Slots α) (slot other : String) (value : α) :
    (s.put slot value).get? other = if other = slot then some value else s.get? other := by
  have kept := getClear s slot other
  by_cases here : other = slot
  · simp [get?, put, here]
  · have miss : (other == slot) = false := beq_false_of_ne here
    rw [if_neg here] at kept ⊢
    simpa [get?, put, List.lookup_cons, miss] using kept

end Slots

structure Bindings where
  values : Slots Binary64
  default? : Option Binary64
  deriving DecidableEq, Repr

inductive Scope where
  | bound
  | boundOrDefault
  deriving DecidableEq, Repr

namespace Bindings

def empty : Bindings := ⟨.empty, none⟩

def bind (b : Bindings) (name : String) (value : Binary64) : Bindings :=
  { b with values := b.values.put name value }

def unbind (b : Bindings) (name : String) : Bindings := { b with values := b.values.clear name }

def size (b : Bindings) : Nat := b.values.size

def ofList (values : List (String × Binary64)) (default? : Option Binary64) : Bindings :=
  values.foldl (fun b entry => b.bind entry.1 entry.2) ⟨.empty, default?⟩

def lookup (b : Bindings) : Scope → Lookup
  | .bound, name => b.values.get? name
  | .boundOrDefault, name => (b.values.get? name).or b.default?

end Bindings

structure FormulaSet where
  members : List Formula
  deriving Repr

namespace FormulaSet

def empty : FormulaSet := ⟨[]⟩

def size (s : FormulaSet) : Nat := s.members.length

def contains (s : FormulaSet) (f : Formula) : Bool := s.members.any (· == f)

def insert (s : FormulaSet) (f : Formula) : FormulaSet :=
  if s.contains f then s else ⟨f :: s.members⟩

def erase (s : FormulaSet) (f : Formula) : FormulaSet := ⟨s.members.filter fun g => !(g == f)⟩

def texts (s : FormulaSet) : List String := orderedTexts (s.members.map Formula.canonical)

def insertTexts (s : FormulaSet) : List String → List (Except FormatFault Bool) × FormulaSet
  | [] => ([], s)
  | text :: rest =>
      match Formula.ofText text with
      | .ok f =>
          let (answers, last) := (s.insert f).insertTexts rest
          (.ok (!s.contains f) :: answers, last)
      | .error fault =>
          let (answers, last) := s.insertTexts rest
          (.error fault :: answers, last)

end FormulaSet

structure Worksheet where
  slots : Slots Formula
  collection : FormulaSet
  bindings : Bindings

namespace Worksheet

def empty : Worksheet := ⟨.empty, .empty, .empty⟩

inductive Command where
  | build (slot : String) (naming : Naming) (text : String)
  | rebuild (slot source : String)
  | copy (slot source : String)
  | clear (slot : String)
  | display (slot : String)
  | bind (name : String) (value : Binary64)
  | unbind (name : String)
  | setDefault (value : Option Binary64)
  | evaluate (slot : String) (scope : Scope)
  | assign (slot name : String) (scope : Scope)
  | compare (first second : String)
  | insert (slot : String)
  | contains (slot : String)
  | remove (slot : String)

inductive Answer where
  | absent
  | displayed (f : Formula)
  | failed (fault : FormatFault)
  | cleared (occupied : Bool)
  | bound (count : Nat)
  | evaluated (result : Except EvaluationFault Binary64)
  | compared (equal : Bool) (sameHash : Option Bool)
  | inserted (isNew : Bool) (size : Nat)
  | contained (found : Bool)
  | removed (found : Bool) (size : Nat)

def withFormula (w : Worksheet) (slot : String) (act : Formula → Worksheet × Answer) :
    Worksheet × Answer :=
  (w.slots.get? slot).elim (w, .absent) act

def place (w : Worksheet) (slot : String) : Except FormatFault Formula → Worksheet × Answer
  | .ok f => ({ w with slots := w.slots.put slot f }, .displayed f)
  | .error fault => (w, .failed fault)

def rebound (w : Worksheet) (bindings : Bindings) : Worksheet × Answer :=
  ({ w with bindings := bindings }, .bound bindings.size)

def perform (w : Worksheet) : Command → Worksheet × Answer
  | .build slot naming text => w.place slot (Formula.ofTextWith naming text)
  | .rebuild slot source => w.withFormula source fun f => w.place slot (Formula.ofText f.canonical)
  | .copy slot source => w.withFormula source fun f => w.place slot (.ok f)
  | .clear slot => ({ w with slots := w.slots.clear slot }, .cleared (w.slots.get? slot).isSome)
  | .display slot => w.withFormula slot fun f => (w, .displayed f)
  | .bind name value => w.rebound (w.bindings.bind name value)
  | .unbind name => w.rebound (w.bindings.unbind name)
  | .setDefault value => w.rebound { w.bindings with default? := value }
  | .evaluate slot scope => w.withFormula slot fun f =>
      (w, .evaluated (f.evaluate (w.bindings.lookup scope)))
  | .assign slot name scope => w.withFormula slot fun f =>
      match f.evaluate (w.bindings.lookup scope) with
      | .ok value => ({ w with bindings := w.bindings.bind name value }, .evaluated (.ok value))
      | .error fault => (w, .evaluated (.error fault))
  | .compare first second =>
      match w.slots.get? first, w.slots.get? second with
      | some f, some g => (w, .compared (f == g) (some (f.sameHash g)))
      | none, none => (w, .compared true none)
      | _, _ => (w, .compared false none)
  | .insert slot => w.withFormula slot fun f =>
      let collection := w.collection.insert f
      ({ w with collection := collection }, .inserted (!w.collection.contains f) collection.size)
  | .contains slot => w.withFormula slot fun f => (w, .contained (w.collection.contains f))
  | .remove slot => w.withFormula slot fun f =>
      let collection := w.collection.erase f
      ({ w with collection := collection }, .removed (w.collection.contains f) collection.size)

def answers (w : Worksheet) : List Command → List Answer
  | [] => []
  | command :: rest => (w.perform command).2 :: answers (w.perform command).1 rest

end Worksheet

end ArithmeticFormula
