import Mensura.Main
import Mensura.Program.Outline
import Mensura.Session
import Mensura.Proofs.Result
import Mensura.Proofs.Unit.Totals
import Mensura.Proofs.Unit.Dimension
import Mensura.Proofs.Unit.Expansion
import Mensura.Proofs.Unit.Equivalence
import Mensura.Proofs.Typing.Meaning
import Mensura.Proofs.Typing.Operation
import Mensura.Proofs.Evaluation.Bound
import Mensura.Proofs.Scope.Related
import Mensura.Proofs.Typing.WellTyped
import Mensura.Proofs.Typing.Checker
import Mensura.Proofs.Typing.Exactness
import Mensura.Proofs.Typing.Atomicity
import Mensura.Proofs.Typing.Respelling
import Mensura.Proofs.Measured.Machine
import Mensura.Proofs.Measured.Tracking
import Mensura.Proofs.Measured.Operation
import Mensura.Proofs.Measured.Soundness
import Mensura.Proofs.Measured.Safety
import Mensura.Proofs.Evaluation.Frame
import Mensura.Proofs.Text.Lines
import Mensura.Proofs.Token.Legible
import Mensura.Proofs.Token.Places
import Mensura.Proofs.Token.Spelling
import Mensura.Proofs.Grammar.Basic
import Mensura.Proofs.Grammar.Reading
import Mensura.Proofs.Grammar.Derivation
import Mensura.Proofs.Grammar.Soundness
import Mensura.Proofs.Grammar.Completeness
import Mensura.Proofs.Grammar.Program
import Mensura.Proofs.Printing.Alike
import Mensura.Proofs.Printing.Scan
import Mensura.Proofs.Printing.Expr
import Mensura.Proofs.Printing.Stmt
import Mensura.Proofs.Printing.Program
import Mensura.Proofs.Unit.Laws
import Mensura.Proofs.Unit.Congruence
import Mensura.Proofs.Program.Places
import Mensura.Proofs.Program.Suiting
import Mensura.Proofs.Token.Locality
import Mensura.Proofs.Token.Layout
import Mensura.Proofs.Program.Layout
import Mensura.Proofs.Program.Arrangement
import Mensura.Proofs.Typing.Places
import Mensura.Proofs.Evaluation.Places
import Mensura.Proofs.Scope.Unshadowed
import Mensura.Proofs.Evaluation.Manner
import Mensura.Proofs.Evaluation.Shadowing
import Mensura.Proofs.Foresight.Basic
import Mensura.Proofs.Foresight.Parser
import Mensura.Proofs.Foresight.Settled
import Mensura.Proofs.Foresight.Due
import Mensura.Proofs.Foresight.Viable
import Mensura.Proofs.Foresight.Completion
import Mensura.Proofs.Foresight.Offence
import Mensura.Proofs.Foresight.Expected
import Mensura.Proofs.Builtin.Power
import Mensura.Proofs.Printing.Chunk
import Mensura.Proofs.Printing.UnitTokens
import Mensura.Proofs.Printing.Unit
import Mensura.Proofs.Numeral.Nearest
import Mensura.Proofs.Numeral.Double
import Mensura.Proofs.Evaluation.Comparison
import Mensura.Proofs.Program.Wording
import Mensura.Proofs.Unit.Names
import Mensura.Proofs.Typing.Names
import Mensura.Proofs.Evaluation.Names
import Mensura.Proofs.Text.Unbroken
import Mensura.Proofs.Token.Inline
import Mensura.Proofs.Diagnostic
import Mensura.Proofs.Token.Overstep
import Mensura.Proofs.Token.Limits
import Mensura.Proofs.Token.Lexemes
import Mensura.Proofs.Foresight.Calls
import Mensura.Proofs.Evaluation.Rewriting
import Mensura.Proofs.Evaluation.Return
import Mensura.Proofs.Evaluation.Integer
import Mensura.Proofs.Typing.Congruence
import Mensura.Proofs.Program.Order
import Mensura.Proofs.Unit.Normal
import Mensura.Proofs.Unit.Powers
import Mensura.Proofs.Scope.Bracketing
import Mensura.Proofs.Scope.Listed
import Mensura.Proofs.Evaluation.Overlooked
import Mensura.Proofs.Typing.Overlooked
import Mensura.Proofs.Program.Chains
import Mensura.Proofs.Program.Expressions
import Mensura.Proofs.Evaluation.Exponent
