import Parenthetic.Position
import Parenthetic.Operator
import Parenthetic.Arith
import Parenthetic.Token
import Parenthetic.SyntaxError
import Parenthetic.Token.Scan
import Parenthetic.Expr
import Parenthetic.Program
import Parenthetic.Expr.Parse
import Parenthetic.Program.Parse
import Parenthetic.RuntimeError
import Parenthetic.Frame
import Parenthetic.Outcome
import Parenthetic.Eval
import Parenthetic.Run
import Parenthetic.Cli.Similarity
import Parenthetic.Cli.Args
import Parenthetic.Cli.Input
import Parenthetic.Cli.Session
import Parenthetic.Main
import Parenthetic.Proofs.Parse.Steps
import Parenthetic.Proofs.Parse.Soundness
import Parenthetic.Proofs.Canonical
import Parenthetic.Proofs.Parse.Lookahead
import Parenthetic.Proofs.Parse.Completeness
import Parenthetic.Proofs.Scan.Spelling
import Parenthetic.Proofs.RoundTrip
import Parenthetic.Proofs.Scan.Specification
import Parenthetic.Proofs.Scoping
import Parenthetic.Proofs.Arith.Exact
import Parenthetic.Proofs.Eval.Closed
import Parenthetic.Proofs.Eval.ErrorOrigin
import Parenthetic.Proofs.Layout.Relabel
import Parenthetic.Proofs.Layout.Parse
import Parenthetic.Proofs.Layout.Scan
import Parenthetic.Proofs.Layout.Insensitivity
import Parenthetic.Proofs.Eval.Call
import Parenthetic.Proofs.Eval.Termination
import Parenthetic.Proofs.Parse.Progress
import Parenthetic.Proofs.Parse.Expected
