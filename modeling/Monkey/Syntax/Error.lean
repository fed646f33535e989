import Monkey.Token.Scan
/-!
# Syntax errors and parse failures

A syntax error names the token where the parser gave up on a statement and what it wanted
there, or says that expressions nest past the limit. Parsing fails with the first lexical error
(along with the syntax errors recorded by then), or else with the syntax errors, in source order.
A failure is incomplete when it consists of syntax errors only, all met at the end of input:
more source might still complete the program.
-/

namespace Monkey

/-- What the parser wanted where it found something else. -/
inductive Wanted where
  /-- Any identifier. -/
  | ident
  /-- A token of this kind. -/
  | token (k : Token.Kind)
  /-- The start of an expression. -/
  | expression
deriving DecidableEq

namespace Wanted

/-- How messages name what was wanted. -/
def name : Wanted → String
  | ident => "IDENT"
  | token k => k.name
  | expression => "expression"

/-- Whether a token kind is what was wanted. -/
def accepts : Wanted → Token.Kind → Bool
  | ident, .ident _ => true
  | ident, _ => false
  | token k, k' => k == k'
  | expression, _ => false

end Wanted

/-- What went wrong at a token. -/
inductive SyntaxFault where
  /-- Something else was wanted. -/
  | expected (want : Wanted)
  /-- Expressions nest deeper than the limit. -/
  | tooDeep (limit : Nat)
deriving DecidableEq

/-- A syntax error: the token where it was met and what went wrong there. -/
structure SyntaxError where
  token : Token
  fault : SyntaxFault

namespace SyntaxError

/-- The place of the error. -/
def pos (e : SyntaxError) : Pos := e.token.pos

/-- Whether the error was met at the end of input. -/
def atEnd (e : SyntaxError) : Bool := e.token.kind == .eof

/-- The detail of the error. -/
def detail (e : SyntaxError) : String :=
  match e.fault with
  | .expected want => "expected token " ++ want.name ++ ", got token " ++ e.token.describe
  | .tooDeep limit => "expression nesting exceeds " ++ toString limit

/-- The one-line text of the error; the column is shown counting from 1. -/
def message (e : SyntaxError) : String :=
  "PARSE ERROR at " ++ toString e.pos.line ++ ":" ++ toString (e.pos.col + 1) ++ ": " ++ e.detail

/-- The caret snippet of the error in its source, under a source name (empty for none). -/
def pretty (e : SyntaxError) (name : String) (src : List UInt8) : List UInt8 :=
  Text.snippet src "PARSE ERROR" name e.pos.line (e.pos.col + 1) e.detail

end SyntaxError

/-- Why a source is not a program. -/
inductive ParseFailure where
  /-- Scanning failed; the syntax errors recorded up to then come along. -/
  | lexical (e : LexError) (recorded : List SyntaxError)
  /-- Syntax errors, at least one, in source order. -/
  | syntactic (errors : List SyntaxError)

namespace ParseFailure

/-- The syntax errors recorded, in source order. -/
def syntaxErrors : ParseFailure → List SyntaxError
  | lexical _ recorded => recorded
  | syntactic errors => errors

/-- The text of the failure: the lexical error, or one line per syntax error. -/
def message : ParseFailure → String
  | lexical e _ => e.message
  | syntactic errors => "\n".intercalate (errors.map SyntaxError.message)

/-- The caret snippets of the failure, joined by line feeds. -/
def pretty (f : ParseFailure) (name : String) (src : List UInt8) : List UInt8 :=
  match f with
  | lexical e _ => e.pretty name src
  | syntactic errors => List.intercalate [10] (errors.map fun e => e.pretty name src)

/-- A failure is incomplete when it is made of syntax errors only, all at the end of input. -/
def incomplete : ParseFailure → Bool
  | lexical _ _ => false
  | syntactic errors => !errors.isEmpty && errors.all SyntaxError.atEnd

end ParseFailure

end Monkey
