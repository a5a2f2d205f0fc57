import ArithmeticFormula.Fault
import ArithmeticFormula.Text

/-! How a formula takes its variables. A policy renames each name as written and then admits or rejects
the new one; both must have the shape of a name. Rules give policies: a renaming rule says what becomes of a
name, an admission rule which new names are taken. Case and digits are those of ASCII, and lengths count the
bytes of UTF-8. -/
namespace ArithmeticFormula

structure Naming where
  rename : String → String
  admits : String → Bool

namespace Naming

def asWritten : Naming := ⟨id, fun _ => true⟩

def resolve (naming : Naming) (raw : String) : Except FormatFault String :=
  if !isName raw then .error (.invalidVariable raw)
  else
    let name := naming.rename raw
    if !isName name then .error (.invalidNormalizedVariable raw name)
    else if !naming.admits name then .error (.rejectedVariable name)
    else .ok name

theorem resolveIff {naming : Naming} {raw name : String} :
    naming.resolve raw = .ok name ↔
      isName raw = true ∧ naming.rename raw = name ∧ isName name = true ∧ naming.admits name = true := by
  unfold resolve
  grind

theorem resolveAsWritten {name : String} (shape : isName name = true) :
    asWritten.resolve name = .ok name :=
  resolveIff.2 ⟨shape, rfl, shape, rfl⟩

def Takes (naming : Naming) (raw : String) : Prop :=
  isName (naming.rename raw) = true ∧ naming.admits (naming.rename raw) = true

def refusal (naming : Naming) (raw : String) : FormatFault :=
  if isName (naming.rename raw) then .rejectedVariable (naming.rename raw)
  else .invalidNormalizedVariable raw (naming.rename raw)

theorem resolveError {naming : Naming} {raw : String} {fault : FormatFault} (shape : isName raw = true) :
    naming.resolve raw = .error fault ↔ ¬ naming.Takes raw ∧ fault = naming.refusal raw := by
  rw [resolve, Takes, refusal, shape]
  cases renamed : isName (naming.rename raw) with
  | false => simpa [renamed] using eq_comm
  | true =>
    cases admitted : naming.admits (naming.rename raw) with
    | false => simpa [renamed, admitted] using eq_comm
    | true => simp [renamed, admitted]

end Naming

inductive Renaming where
  | unchanged
  | upper
  | lower
  | before (text : String)
  | after (text : String)
  | always (text : String)
  | reversed
  | byTable (table : List (String × String))
  deriving DecidableEq, Repr

def Renaming.apply (rule : Renaming) (name : String) : String :=
  match rule with
  | unchanged => name
  | upper => String.ofList (name.toList.map Char.toUpper)
  | lower => String.ofList (name.toList.map Char.toLower)
  | before text => text ++ name
  | after text => name ++ text
  | always text => text
  | reversed => String.ofList name.toList.reverse
  | byTable table => (table.lookup name).getD name

inductive Admission where
  | all
  | none
  | cell
  | among (names : List String)
  | except (names : List String)
  | upTo (bytes : Nat)
  deriving DecidableEq, Repr

/-- Capital letters and then digits, at least one of each: a column and a row. -/
def isCell (name : List Char) : Bool :=
  let column := name.reverse.dropWhile Char.isDigit
  !column.isEmpty && column.length < name.length && column.all Char.isUpper

def Admission.admits (rule : Admission) (name : String) : Bool :=
  match rule with
  | all => true
  | none => false
  | cell => isCell name.toList
  | among names => names.contains name
  | except names => !names.contains name
  | upTo bytes => name.utf8ByteSize ≤ bytes

def Naming.ofRules (rename : Renaming) (admission : Admission) : Naming :=
  ⟨rename.apply, admission.admits⟩

end ArithmeticFormula
