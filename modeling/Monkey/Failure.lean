import Monkey.Syntax.Error
import Monkey.Eval.Error
/-!
# Failures

Running a source fails either because it is not a program (a lexical error or syntax errors) or
because evaluation stopped with a runtime error. Each failure has a one-line message and a
pretty form: caret snippets for positioned errors, the message alone for runtime errors.
-/

namespace Monkey

/-- Why running a source failed. -/
inductive Failure where
  | parse (f : ParseFailure)
  | eval (e : EvalError)

namespace Failure

/-- The one-line text of a failure. -/
def message : Failure → String
  | parse f => f.message
  | eval e => e.message

/-- The pretty form of a failure in its source, under a source name (empty for none). -/
def pretty (f : Failure) (name : String) (src : List UInt8) : List UInt8 :=
  match f with
  | parse p => p.pretty name src
  | eval e => Text.bytes (e.pretty name)

/-- Whether more source might complete the program. -/
def incomplete : Failure → Bool
  | parse f => f.incomplete
  | eval _ => false

/-- The message of a failed run, prefixed by the stage that failed. -/
def runMessage : Failure → String
  | parse f => "parse: " ++ f.message
  | eval e => "eval: " ++ e.message

end Failure

end Monkey
