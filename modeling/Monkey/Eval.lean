import Monkey.Frame
import Monkey.Eval.Trace
/-!
# Evaluation

Statements run in a frame of the store. Integers are 32-bit and wrap around; division truncates
toward zero. `!` takes booleans and `-` integers; the binary operators take two integers, and
`==` and `!=` also two booleans. A call evaluates the callee, then the arguments left to right,
and runs the body in a new frame extending the closure's frame, with each parameter bound to its
argument; parameters without an argument stay unbound and surplus arguments are dropped.

A `return` gives a returning completion, which passes up through every enclosing expression and
block to the nearest call or to the top level, where it becomes a plain value.

Evaluation has a nesting budget: unary and binary operations, calls and blocks each spend one
unit for their duration, and running out is a fatal error. Every recursive step either spends a
unit or moves to a part of the node at hand, so evaluation is total.
-/

namespace Monkey

/-- How an interpreter evaluates: strict or lenient, the nesting limit, and whether it traces. -/
structure Config where
  strict : Bool := false
  maxDepth : Nat := 10000
  trace : Bool := false

/-- The nesting limit used when none is given. -/
def Config.defaultDepth : Nat := 10000

/-- The nesting limit a requested number stands for: itself when positive, else the default. -/
def Config.depthOf (n : Int) : Nat := if n > 0 then n.toNat else Config.defaultDepth

/-- The state evaluation changes: the store of frames and the trace so far. -/
structure Machine where
  store : Store := Store.init
  trace : Array Trace := #[]

/-- How evaluating a node ends: normally with a result, or returning a value. -/
inductive Completion (α : Type) where
  | normal (a : α)
  | returning (v : Value)

/-- Evaluation changes the machine and may stop with a runtime error. -/
abbrev EvalM := EStateM EvalError Machine

/-- The value a completion stands for once a call or the top level receives it. -/
def Completion.value : Completion Value → Value
  | .normal v => v
  | .returning v => v

namespace Eval

/-- Records a trace event when tracing is on. -/
def note (cfg : Config) (t : Trace) : EvalM Unit :=
  if cfg.trace then modify fun m => { m with trace := m.trace.push t } else pure ()

/-- Meets a fault: in strict mode, or when the fault is fatal, evaluation stops with it;
otherwise the fault is traced and its value is null. -/
def degrade (cfg : Config) (e : EvalError) : EvalM Value :=
  if cfg.strict || e.fatal then throw e
  else do
    note cfg (.degraded e)
    pure .null

/-- A unary operation: `!` negates a boolean, `-` negates an integer with wrap-around. -/
def unary (cfg : Config) (op : UnOp) (v : Value) : EvalM Value :=
  match op, v with
  | .not, .bool b => pure (.bool !b)
  | .neg, .int n => pure (.int (-n))
  | op, v => degrade cfg (.badOperand op v.tag)

/-- A binary operation on two integers: wrapping arithmetic, truncating division (a zero
divisor is an error), and comparisons. -/
def intBinary (op : BinOp) (a b : Int32) : Except EvalError Value :=
  match op with
  | .add => .ok (.int (a + b))
  | .sub => .ok (.int (a - b))
  | .mul => .ok (.int (a * b))
  | .div => if b = 0 then .error (.divisionByZero a) else .ok (.int (a / b))
  | .lt => .ok (.bool (a < b))
  | .gt => .ok (.bool (a > b))
  | .eq => .ok (.bool (a == b))
  | .ne => .ok (.bool (a != b))

/-- A binary operation: on two integers, on two booleans (only `==` and `!=`), else a fault. -/
def binary (cfg : Config) (op : BinOp) (l r : Value) : EvalM Value :=
  match l, r with
  | .int a, .int b =>
    match intBinary op a b with
    | .ok v => pure v
    | .error e => throw e
  | .bool a, .bool b =>
    match op with
    | .eq => pure (.bool (a == b))
    | .ne => pure (.bool (a != b))
    | _ => degrade cfg (.boolOperator op)
  | l, r => degrade cfg (.badOperands op l.tag r.tag)

/-- Adds a frame extending `outer` and binds the parameters to the arguments, pairwise. -/
def enterFrame (outer : FrameId) (params : List String) (args : List Value) : EvalM FrameId :=
  modifyGet fun m =>
    let (id, store) := m.store.push (some outer)
    let store := (params.zip args).foldl (fun s (p, v) => s.define id p v) store
    (id, { m with store })

mutual

/-- Evaluates an expression in a frame with a nesting budget. -/
def expr (cfg : Config) (budget : Nat) (env : FrameId) : Expr → EvalM (Completion Value)
  | .ident name => do
    match (← get).store.lookup env name with
    | some v => pure (.normal v)
    | none => return .normal (← degrade cfg (.unbound name))
  | .int n => pure (.normal (.int n))
  | .bool b => pure (.normal (.bool b))
  | .unop op arg =>
    match budget with
    | 0 => throw (.stackLimit cfg.maxDepth)
    | b + 1 => do
      match ← expr cfg b env arg with
      | .returning v => pure (.returning v)
      | .normal v => return .normal (← unary cfg op v)
  | .binop op lhs rhs =>
    match budget with
    | 0 => throw (.stackLimit cfg.maxDepth)
    | b + 1 => do
      match ← expr cfg b env lhs with
      | .returning v => pure (.returning v)
      | .normal l =>
        match ← expr cfg b env rhs with
        | .returning v => pure (.returning v)
        | .normal r => return .normal (← binary cfg op l r)
  | .cond test thenBlock elseBlock => do
    match ← expr cfg budget env test with
    | .returning v => pure (.returning v)
    | .normal c =>
      note cfg (.condition test c)
      if c.truthy then block cfg budget env thenBlock
      else
        match elseBlock with
        | some stmts => block cfg budget env stmts
        | none => pure (.normal .null)
  | .func params body => pure (.normal (.closure params body env))
  | .call callee args =>
    match budget with
    | 0 => throw (.stackLimit cfg.maxDepth)
    | b + 1 => do
      match ← expr cfg b env callee with
      | .returning v => pure (.returning v)
      | .normal (.closure params body outer) =>
        match ← exprs cfg b env args with
        | .returning v => pure (.returning v)
        | .normal vals =>
          let frame ← enterFrame outer params vals
          return .normal (← block cfg b frame body).value
      | .normal _ => return .normal (← degrade cfg (.notCallable callee))
termination_by e => (budget, sizeOf e)

/-- Evaluates expressions left to right, stopping at a returning one. -/
def exprs (cfg : Config) (budget : Nat) (env : FrameId) :
    List Expr → EvalM (Completion (List Value))
  | [] => pure (.normal [])
  | e :: rest => do
    match ← expr cfg budget env e with
    | .returning v => pure (.returning v)
    | .normal v =>
      match ← exprs cfg budget env rest with
      | .returning w => pure (.returning w)
      | .normal vs => pure (.normal (v :: vs))
termination_by es => (budget, sizeOf es)

/-- Runs a block: one unit of the budget for its duration; its value is that of its last
statement, null when empty. -/
def block (cfg : Config) (budget : Nat) (env : FrameId) (stmts : List Stmt) :
    EvalM (Completion Value) :=
  match budget with
  | 0 => throw (.stackLimit cfg.maxDepth)
  | b + 1 => stmtsFrom cfg b env stmts .null
termination_by (budget, sizeOf stmts)

/-- Runs statements in order, stopping at a returning one; `last` is the value so far. -/
def stmtsFrom (cfg : Config) (budget : Nat) (env : FrameId) :
    List Stmt → Value → EvalM (Completion Value)
  | [], last => pure (.normal last)
  | s :: rest, _ => do
    match ← stmt cfg budget env s with
    | .returning v => pure (.returning v)
    | .normal v => stmtsFrom cfg budget env rest v
termination_by ss => (budget, sizeOf ss)

/-- Runs a statement: a binding defines the name in the frame and gives its value; a `return`
gives a returning completion, of null when it has no value. -/
def stmt (cfg : Config) (budget : Nat) (env : FrameId) : Stmt → EvalM (Completion Value)
  | .bind name e => do
    match ← expr cfg budget env e with
    | .returning v => pure (.returning v)
    | .normal v =>
      modify fun m => { m with store := m.store.define env name v }
      pure (.normal v)
  | .ret none => pure (.returning .null)
  | .ret (some e) => do
    match ← expr cfg budget env e with
    | .returning v => pure (.returning v)
    | .normal v => pure (.returning v)
  | .expr e => expr cfg budget env e
termination_by s => (budget, sizeOf s)

end

/-- Runs top-level statements in a frame with the full budget each, tracing each statement and
its value; a returning statement ends the run with its value. -/
def program (cfg : Config) (env : FrameId) : List Stmt → Value → EvalM Value
  | [], last => pure last
  | s :: rest, _ => do
    note cfg (.statement s)
    match ← stmt cfg cfg.maxDepth env s with
    | .returning v => pure v
    | .normal v =>
      note cfg (.output v)
      program cfg env rest v

end Eval

end Monkey
