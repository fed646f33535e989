import Monkey.Eval.Error
/-!
# Evaluation traces

With tracing on, evaluation records what it does: each top-level statement before it runs and
its value after, each condition with the value it took, and each fault that lenient mode turned
into null. An event has a message and named text fields.
-/

namespace Monkey

/-- An event of a traced evaluation. -/
inductive Trace where
  /-- A top-level statement is about to run. -/
  | statement (s : Stmt)
  /-- A top-level statement gave a value. -/
  | output (v : Value)
  /-- A condition took a value. -/
  | condition (test : Expr) (v : Value)
  /-- A fault was turned into null. -/
  | degraded (e : EvalError)

namespace Trace

/-- The message of an event. -/
def message : Trace → String
  | statement _ => "statement"
  | output _ => "output"
  | condition .. => "condition"
  | degraded _ => "degraded to null"

/-- The fields of an event, in order. -/
def fields : Trace → List (String × String)
  | statement s => [("stmt", s.render)]
  | output v => [("value", v.debug)]
  | condition test v => [("expr", test.render), ("value", v.debug)]
  | degraded e => [("kind", e.kind.name), ("detail", e.detail)]

end Trace

end Monkey
