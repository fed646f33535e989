import Monkey.Text.Utf8
import Monkey.Text.Printable
import Monkey.Text.Quoted
import Monkey.Text.Snippet
import Monkey.Text.Blank
import Monkey.Text.Lines
import Monkey.Text.Json
import Monkey.Text.Table
import Monkey.Token
import Monkey.Token.Scan
import Monkey.Syntax
import Monkey.Syntax.Error
import Monkey.Syntax.Parse
import Monkey.Value
import Monkey.Frame
import Monkey.Eval.Error
import Monkey.Eval.Trace
import Monkey.Eval
import Monkey.Failure
import Monkey.Interpreter
import Monkey.Console
import Monkey.Repl
import Monkey.Cli.Flags
import Monkey.Cli.Help
import Monkey.Cli.Listing
import Monkey.Cli
import Monkey.Main
import Monkey.Proofs.Lexing
import Monkey.Proofs.Leniency
import Monkey.Proofs.Returns
import Monkey.Proofs.Grammar
import Monkey.Proofs.ParserState
import Monkey.Proofs.Follows
import Monkey.Proofs.Parsing
import Monkey.Proofs.Programs
import Monkey.Proofs.Sessions
import Monkey.Proofs.Termination
import Monkey.Proofs.Printing
import Monkey.Proofs.Leaves
import Monkey.Proofs.Reprinting
import Monkey.Proofs.Nesting
import Monkey.Proofs.Budget
import Monkey.Proofs.Frames
import Monkey.Proofs.BadNumbers
import Monkey.Proofs.LexicalErrors
import Monkey.Proofs.PrintedNesting
import Monkey.Proofs.MissingNodes
import Monkey.Proofs.PrintedDepth
import Monkey.Proofs.Carets
import Monkey.Proofs.Arithmetic
import Monkey.Proofs.Calls
import Monkey.Proofs.ClosureFrames
import Monkey.Proofs.SourceOrder
import Monkey.Proofs.GivenUp
import Monkey.Proofs.DisplayStrings
import Monkey.Proofs.Unbounded
import Monkey.Proofs.ParseEnds
