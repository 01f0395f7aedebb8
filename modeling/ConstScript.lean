import ConstScript.Syntax.Equality
import ConstScript.Syntax.Render
import ConstScript.Grammar.Program
import ConstScript.Value.Equality
import ConstScript.Scope.Describe
import ConstScript.Session
import ConstScript.Main
import ConstScript.Proofs.Grammar.Phrase
import ConstScript.Proofs.Grammar.Complete
import ConstScript.Proofs.Grammar.Sound
import ConstScript.Proofs.Grammar.Language
import ConstScript.Proofs.Grammar.Recovery
import ConstScript.Proofs.Token.Scan
import ConstScript.Proofs.Token.Spelling
import ConstScript.Proofs.Syntax.WellFormed
import ConstScript.Proofs.Grammar.RoundTrip
import ConstScript.Proofs.Grammar.OperatorText
import ConstScript.Proofs.Session.Concatenation
import ConstScript.Proofs.Eval.Footprint
import ConstScript.Proofs.Eval.Unwinding
import ConstScript.Proofs.Eval.Repetition
import ConstScript.Proofs.Token.LongestMatch
import ConstScript.Proofs.Grammar.TokenContent
import ConstScript.Proofs.Eval.ErrorFree
import ConstScript.Proofs.Scope.History
import ConstScript.Proofs.Session.ErrorFree
import ConstScript.Proofs.Grammar.FirstError
import ConstScript.Proofs.Eval.DefinitionOrder
import ConstScript.Proofs.Eval.CalledProgram
import ConstScript.Proofs.Eval.Unmentioned
import ConstScript.Proofs.Session.Arithmetic
import ConstScript.Proofs.Command.Interactive
import ConstScript.Proofs.Session.Identity
import ConstScript.Proofs.Grammar.Layout
import ConstScript.Proofs.Eval.MapLiteral
import ConstScript.Proofs.Value.Equality
import ConstScript.Proofs.Session.Equality
import ConstScript.Proofs.Session.Data
import ConstScript.Proofs.Eval.Call
import ConstScript.Proofs.Value.Array
import ConstScript.Proofs.Value.Structure
import ConstScript.Proofs.Eval.FunctionFree
import ConstScript.Proofs.Eval.ScopeNesting
import ConstScript.Proofs.Grammar.IntegerLiteral
import ConstScript.Proofs.Eval.Definitions
