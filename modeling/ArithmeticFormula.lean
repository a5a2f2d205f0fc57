import ArithmeticFormula.Fault
import ArithmeticFormula.Formula
import ArithmeticFormula.Grammar
import ArithmeticFormula.Journal
import ArithmeticFormula.Lexeme
import ArithmeticFormula.Machine
import ArithmeticFormula.Naming
import ArithmeticFormula.Number.Binary64
import ArithmeticFormula.Number.Layout
import ArithmeticFormula.Number.Numeral
import ArithmeticFormula.Scan
import ArithmeticFormula.Text
import ArithmeticFormula.Worksheet
import ArithmeticFormula.Proofs.Fault.Messages
import ArithmeticFormula.Proofs.Formula.Accepted
import ArithmeticFormula.Proofs.Formula.Canonical
import ArithmeticFormula.Proofs.Formula.Composed
import ArithmeticFormula.Proofs.Formula.FirstFault
import ArithmeticFormula.Proofs.Formula.Literals
import ArithmeticFormula.Proofs.Formula.Messages
import ArithmeticFormula.Proofs.Formula.References
import ArithmeticFormula.Proofs.Formula.Renamed
import ArithmeticFormula.Proofs.Formula.Repaired
import ArithmeticFormula.Proofs.Formula.Respelled
import ArithmeticFormula.Proofs.Formula.Stops
import ArithmeticFormula.Proofs.Formula.Value
import ArithmeticFormula.Proofs.Formula.Walks
import ArithmeticFormula.Proofs.Grammar.Fits
import ArithmeticFormula.Proofs.Lexeme.Bytewise
import ArithmeticFormula.Proofs.Lexeme.Divided
import ArithmeticFormula.Proofs.Lexeme.Fused
import ArithmeticFormula.Proofs.Lexeme.Parted
import ArithmeticFormula.Proofs.Lexeme.Prescribed
import ArithmeticFormula.Proofs.Lexeme.Scan
import ArithmeticFormula.Proofs.Machine.Carries
import ArithmeticFormula.Proofs.Machine.Conserved
import ArithmeticFormula.Proofs.Machine.Levels
import ArithmeticFormula.Proofs.Machine.Lookups
import ArithmeticFormula.Proofs.Machine.Unbalanced
import ArithmeticFormula.Proofs.Number.Bytewise
import ArithmeticFormula.Proofs.Number.Closest
import ArithmeticFormula.Proofs.Number.Decimal
import ArithmeticFormula.Proofs.Number.Divided
import ArithmeticFormula.Proofs.Number.Nearest
import ArithmeticFormula.Proofs.Number.Rounded
import ArithmeticFormula.Proofs.Number.Spelling
import ArithmeticFormula.Proofs.Number.Written
import ArithmeticFormula.Proofs.Text.Bytes
import ArithmeticFormula.Proofs.Text.Wording
import ArithmeticFormula.Proofs.Worksheet
