import Monkey.Value
/-!
# Runtime errors

A runtime error says which rule a program broke and where the rule bit: a name bound nowhere,
an operator applied to values of the wrong kinds, a call of something that is not a function,
a division by zero, or evaluation nesting past the limit; or that a host handed over a node of a
kind the evaluator does not know. The last three are fatal: they stop evaluation in every mode.
The others stop it only in strict mode; leniently they give null.
-/

namespace Monkey

/-- The kinds of runtime error, as named in messages. -/
inductive ErrorKind where
  | unboundIdentifier
  | typeMismatch
  | unknownOperator
  | notCallable
  | divisionByZero
  | stackLimit
  | unsupported
deriving DecidableEq, Repr

/-- The name of a kind of runtime error. -/
def ErrorKind.name : ErrorKind → String
  | .unboundIdentifier => "unbound identifier"
  | .typeMismatch => "type mismatch"
  | .unknownOperator => "unknown operator"
  | .notCallable => "not callable"
  | .divisionByZero => "division by zero"
  | .stackLimit => "stack limit exceeded"
  | .unsupported => "unsupported node"

/-- Runtime errors, by cause. -/
inductive EvalError where
  /-- A name bound in no frame in reach. -/
  | unbound (name : String)
  /-- A unary operator applied to a value of the wrong kind. -/
  | badOperand (op : UnOp) (arg : Value.Tag)
  /-- A binary operator applied to values of kinds it does not take together. -/
  | badOperands (op : BinOp) (lhs rhs : Value.Tag)
  /-- An operator other than `==` and `!=` applied to two booleans. -/
  | boolOperator (op : BinOp)
  /-- A call of a value that is not a function; the callee as written. -/
  | notCallable (callee : Expr)
  /-- An integer divided by zero. -/
  | divisionByZero (dividend : Int32)
  /-- Evaluation nested deeper than the limit. -/
  | stackLimit (limit : Nat)
  /-- A node of a kind the evaluator does not know. -/
  | unsupported (what : String)

namespace EvalError

/-- The kind of an error. -/
def kind : EvalError → ErrorKind
  | unbound _ => .unboundIdentifier
  | badOperand .. => .typeMismatch
  | badOperands .. => .typeMismatch
  | boolOperator _ => .unknownOperator
  | notCallable _ => .notCallable
  | divisionByZero _ => .divisionByZero
  | stackLimit _ => .stackLimit
  | unsupported _ => .unsupported

/-- Fatal errors stop evaluation in lenient mode too. -/
def fatal (e : EvalError) : Bool :=
  match e with
  | divisionByZero _ | stackLimit _ | unsupported _ => true
  | _ => false

/-- The detail of an error. -/
def detail : EvalError → String
  | unbound name => name
  | badOperand op arg => op.symbol ++ arg.name
  | badOperands op l r => l.name ++ " " ++ op.symbol ++ " " ++ r.name
  | boolOperator op => "bool " ++ op.symbol ++ " bool"
  | notCallable callee => callee.render ++ " is not a function"
  | divisionByZero a => toString a.toInt ++ " / 0"
  | stackLimit limit => "nesting exceeds " ++ toString limit
  | unsupported what => what

/-- The kind and the detail, as messages show them. -/
def described (e : EvalError) : String :=
  if e.detail.isEmpty then e.kind.name else e.kind.name ++ ": " ++ e.detail

/-- The one-line text of an error. -/
def message (e : EvalError) : String := "RUNTIME ERROR: " ++ e.described

/-- The text of an error under a source name; runtime errors have no place, so no snippet. -/
def pretty (e : EvalError) (name : String) : String :=
  if name.isEmpty then e.message else "RUNTIME ERROR in " ++ name ++ ": " ++ e.described

end EvalError

end Monkey
