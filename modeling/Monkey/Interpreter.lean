import Monkey.Eval
import Monkey.Syntax.Parse
import Monkey.Failure
/-!
# Interpreters

An interpreter is a session: a configuration and a machine whose global frame outlives each
evaluation, so later sources see the bindings of earlier ones. Sources are parsed with the
default nesting limit and run in the global frame. Each evaluation starts with the full nesting
budget. The state reached is kept when evaluation fails, so bindings made before a runtime error
stay.
-/

namespace Monkey

/-- An interpreter: how it evaluates, and the frames and trace it has built. -/
structure Interpreter where
  config : Config
  machine : Machine := {}

/-- The nodes a host can hand an interpreter: a program, a block, a statement, an expression, or
a node of some other kind (`what` names it), which the interpreter cannot evaluate. -/
inductive Node where
  | program (p : Program)
  | block (stmts : List Stmt)
  | stmt (s : Stmt)
  | expr (e : Expr)
  | other (what : String)

namespace Interpreter

/-- A fresh interpreter: strict or lenient, a requested nesting limit (the default unless
positive), and tracing on or off. -/
def create (strict : Bool) (maxDepth : Int) (trace : Bool) : Interpreter :=
  { config := { strict, maxDepth := Config.depthOf maxDepth, trace } }

/-- The global frame. -/
def global : FrameId := Store.global

/-- Runs an evaluation step on the machine, keeping the state it reaches even on an error. -/
def exec {α : Type} (ip : Interpreter) (m : EvalM α) : Except EvalError α × Interpreter :=
  match m.run ip.machine with
  | .ok a machine => (.ok a, { ip with machine })
  | .error e machine => (.error e, { ip with machine })

/-- Evaluates a program in the global frame. -/
def eval (ip : Interpreter) (p : Program) : Except EvalError Value × Interpreter :=
  ip.exec (Eval.program ip.config global p.stmts .null)

/-- Parses and evaluates a source in the global frame. -/
def evalSource (ip : Interpreter) (src : List UInt8) : Except Failure Value × Interpreter :=
  match Program.parse src with
  | .error f => (.error (.parse f), ip)
  | .ok p =>
    let (r, ip) := ip.eval p
    (r.mapError .eval, ip)

/-- Parses and evaluates a source, giving the display form of its value. -/
def run (ip : Interpreter) (src : List UInt8) : Except Failure String × Interpreter :=
  let (r, ip) := ip.evalSource src
  (r.map Value.display, ip)

/-- Evaluates a node in a frame; a returning completion gives its value. A node of another kind
fails as unsupported, before anything runs. -/
def evalIn (ip : Interpreter) (node : Node) (env : FrameId) : Except EvalError Value × Interpreter :=
  let cfg := ip.config
  match node with
  | .program p => ip.exec (Eval.program cfg env p.stmts .null)
  | .block stmts => ip.exec do return (← Eval.block cfg cfg.maxDepth env stmts).value
  | .stmt s => ip.exec do return (← Eval.stmt cfg cfg.maxDepth env s).value
  | .expr e => ip.exec do return (← Eval.expr cfg cfg.maxDepth env e).value
  | .other what => (.error (.unsupported ("cannot evaluate " ++ what)), ip)

/-- Adds an empty frame extending `outer`, if given. -/
def newFrame (ip : Interpreter) (outer : Option FrameId) : FrameId × Interpreter :=
  let (id, store) := ip.machine.store.push outer
  (id, { ip with machine := { ip.machine with store } })

/-- Binds a name in a frame. -/
def define (ip : Interpreter) (frame : FrameId) (name : String) (v : Value) : Interpreter :=
  { ip with machine := { ip.machine with store := ip.machine.store.define frame name v } }

/-- The value of a name seen from a frame. -/
def get? (ip : Interpreter) (frame : FrameId) (name : String) : Option Value :=
  ip.machine.store.lookup frame name

/-- The bindings of a frame, sorted by name. -/
def bindings (ip : Interpreter) (frame : FrameId) : List (String × Value) :=
  ip.machine.store.bindings frame

/-- Whether a frame extends another. -/
def hasOuter (ip : Interpreter) (frame : FrameId) : Bool :=
  ip.machine.store.hasOuter frame

/-- The trace recorded so far. -/
def trace (ip : Interpreter) : List Trace := ip.machine.trace.toList

/-- The trace recorded so far, handed over and cleared. -/
def takeTrace (ip : Interpreter) : List Trace × Interpreter :=
  (ip.trace, { ip with machine := { ip.machine with trace := #[] } })

end Interpreter

end Monkey
