import Monkey.Interpreter

/-!
A `return` hands its value to the nearest enclosing call, or to the top level when there is none,
and nothing else of what encloses it is evaluated. The evaluator carries this out with
completions: a returning completion passes up through every expression, statement and block, and
a call or the top level turns it into a plain value. Values themselves have no returning form, so
no binding, argument or result of an interpreter can hold one, and a returning completion carries
a plain value, never another completion.

Here the same evaluation is given a second time with `return` as an escape: the returned value is
thrown, the monad's `bind` skips whatever follows it, a call catches it from its body, and the top
level catches it from a program or a node run alone. `return_escapes_to_call_or_top` says the two
agree everywhere: from every machine, for every configuration, budget and frame.
-/

set_option autoImplicit false
set_option relaxedAutoImplicit false

namespace Monkey

/-- Evaluation in which a `return` escapes: the returned value is thrown, and only a call or the
top level catches it. -/
abbrev EscapeM := EStateM (EvalError ⊕ Value) Machine

namespace Escape

open Eval (degrade note unary binary enterFrame)

/-- A step that cannot return, run where a return may escape. -/
def lift {α : Type} (x : EvalM α) : EscapeM α := x.adaptExcept Sum.inl

/-- A function body run by a call: a value escaping it is the call's value. -/
def catchReturn (x : EscapeM Value) : EscapeM Value := fun m =>
  match x m with
  | .error (.inr v) m' => .ok v m'
  | r => r

/-- A run at the top level: a value escaping it is its answer. -/
def settle (x : EscapeM Value) : EvalM Value := fun m =>
  match x m with
  | .ok v m' => .ok v m'
  | .error (.inr v) m' => .ok v m'
  | .error (.inl e) m' => .error e m'

mutual

/-- Evaluates an expression; a `return` inside it escapes. -/
def expr (cfg : Config) (budget : Nat) (env : FrameId) : Expr → EscapeM Value
  | .ident name => do
    match (← get).store.lookup env name with
    | some v => pure v
    | none => lift (degrade cfg (.unbound name))
  | .int n => pure (.int n)
  | .bool b => pure (.bool b)
  | .unop op arg =>
    match budget with
    | 0 => throw (.inl (.stackLimit cfg.maxDepth))
    | b + 1 => do lift (unary cfg op (← expr cfg b env arg))
  | .binop op lhs rhs =>
    match budget with
    | 0 => throw (.inl (.stackLimit cfg.maxDepth))
    | b + 1 => do
      let l ← expr cfg b env lhs
      let r ← expr cfg b env rhs
      lift (binary cfg op l r)
  | .cond test thenBlock elseBlock => do
    let c ← expr cfg budget env test
    lift (note cfg (.condition test c))
    if c.truthy then block cfg budget env thenBlock
    else
      match elseBlock with
      | some stmts => block cfg budget env stmts
      | none => pure .null
  | .func params body => pure (.closure params body env)
  | .call callee args =>
    match budget with
    | 0 => throw (.inl (.stackLimit cfg.maxDepth))
    | b + 1 => do
      match ← expr cfg b env callee with
      | .closure params body outer =>
        let vals ← exprs cfg b env args
        let frame ← lift (enterFrame outer params vals)
        catchReturn (block cfg b frame body)
      | _ => lift (degrade cfg (.notCallable callee))
termination_by e => (budget, sizeOf e)

/-- Evaluates expressions left to right. -/
def exprs (cfg : Config) (budget : Nat) (env : FrameId) : List Expr → EscapeM (List Value)
  | [] => pure []
  | e :: rest => do
    let v ← expr cfg budget env e
    let vs ← exprs cfg budget env rest
    pure (v :: vs)
termination_by es => (budget, sizeOf es)

/-- Runs a block, one unit of the budget for its duration. -/
def block (cfg : Config) (budget : Nat) (env : FrameId) (stmts : List Stmt) : EscapeM Value :=
  match budget with
  | 0 => throw (.inl (.stackLimit cfg.maxDepth))
  | b + 1 => stmtsFrom cfg b env stmts .null
termination_by (budget, sizeOf stmts)

/-- Runs statements in order; the value is the last one's. -/
def stmtsFrom (cfg : Config) (budget : Nat) (env : FrameId) :
    List Stmt → Value → EscapeM Value
  | [], last => pure last
  | s :: rest, _ => do stmtsFrom cfg budget env rest (← stmt cfg budget env s)
termination_by ss => (budget, sizeOf ss)

/-- Runs a statement; a `return` throws its value. -/
def stmt (cfg : Config) (budget : Nat) (env : FrameId) : Stmt → EscapeM Value
  | .bind name e => do
    let v ← expr cfg budget env e
    modify fun m => { m with store := m.store.define env name v }
    pure v
  | .ret none => throw (.inr .null)
  | .ret (some e) => do throw (.inr (← expr cfg budget env e))
  | .expr e => expr cfg budget env e
termination_by s => (budget, sizeOf s)

end

/-- Runs top-level statements with the full budget each, tracing each and its value. -/
def program (cfg : Config) (env : FrameId) : List Stmt → Value → EscapeM Value
  | [], last => pure last
  | s :: rest, _ => do
    lift (note cfg (.statement s))
    let v ← stmt cfg cfg.maxDepth env s
    lift (note cfg (.output v))
    program cfg env rest v

/-- Runs a node on its own, with the full budget. -/
def node (cfg : Config) (env : FrameId) : Node → EscapeM Value
  | .program p => program cfg env p.stmts .null
  | .block stmts => block cfg cfg.maxDepth env stmts
  | .stmt s => stmt cfg cfg.maxDepth env s
  | .expr e => expr cfg cfg.maxDepth env e
  | .other what => throw (.inl (.unsupported ("cannot evaluate " ++ what)))

end Escape

namespace Completion

/-- The answer of a run with completions, read as an escaping run: a returning completion is a
thrown value. -/
def escape {α : Type} :
    EStateM.Result EvalError Machine (Completion α) → EStateM.Result (EvalError ⊕ Value) Machine α
  | .ok (.normal a) m => .ok a m
  | .ok (.returning v) m => .error (.inr v) m
  | .error e m => .error (.inl e) m

end Completion

/-- A step with return completions and an escaping step agree from every machine. -/
def Escapes {α : Type} (x : EvalM (Completion α)) (y : EscapeM α) : Prop :=
  ∀ m, y.run m = Completion.escape (x.run m)

namespace Escapes

variable {α β γ : Type}

theorem pure_normal (a : α) : Escapes (pure (.normal a)) (pure a) := fun _ => rfl

theorem returning (v : Value) :
    Escapes (pure (.returning v) : EvalM (Completion α)) (throw (.inr v)) :=
  fun _ => rfl

theorem fault (e : EvalError) : Escapes (throw e : EvalM (Completion α)) (throw (.inl e)) :=
  fun _ => rfl

theorem bind {x : EvalM (Completion α)} {y : EscapeM α} {k : Completion α → EvalM (Completion β)}
    {l : α → EscapeM β} (first : Escapes x y) (passes : ∀ v, k (.returning v) = pure (.returning v))
    (rest : ∀ a, Escapes (k (.normal a)) (l a)) : Escapes (x >>= k) (y >>= l) := by
  intro m
  rw [EStateM.run_bind, EStateM.run_bind, first m]
  cases x.run m with
  | ok c m' =>
    cases c with
    | normal a => exact rest a m'
    | returning v =>
      dsimp only
      rw [passes]
      rfl
  | error e m' => rfl

theorem plain_bind (z : EvalM γ) {k : γ → EvalM (Completion β)} {l : γ → EscapeM β}
    (rest : ∀ c, Escapes (k c) (l c)) : Escapes (z >>= k) (Escape.lift z >>= l) := by
  intro m
  rw [EStateM.run_bind, EStateM.run_bind, Escape.lift, EStateM.run_adaptExcept]
  cases z.run m with
  | ok c m' => exact rest c m'
  | error e m' => rfl

theorem plain (z : EvalM α) : Escapes (z >>= fun a => pure (.normal a)) (Escape.lift z) := by
  intro m
  rw [EStateM.run_bind, Escape.lift, EStateM.run_adaptExcept]
  cases z.run m <;> rfl

theorem get_bind {k : Machine → EvalM (Completion β)} {l : Machine → EscapeM β}
    (rest : ∀ m, Escapes (k m) (l m)) : Escapes (get >>= k) (get >>= l) :=
  fun m => rest m m

theorem modify_bind {f : Machine → Machine} {k : PUnit → EvalM (Completion β)}
    {l : PUnit → EscapeM β} (rest : ∀ u, Escapes (k u) (l u)) :
    Escapes (modify f >>= k) (modify f >>= l) :=
  fun m => rest _ (f m)

theorem caught {x : EvalM (Completion Value)} {y : EscapeM Value} (body : Escapes x y) :
    Escapes (x >>= fun c => pure (.normal c.value)) (Escape.catchReturn y) := by
  intro m
  have run : (Escape.catchReturn y).run m =
      match y.run m with
      | .error (.inr v) m' => .ok v m'
      | r => r := rfl
  rw [EStateM.run_bind, run, body m]
  cases x.run m with
  | ok c m' => cases c <;> rfl
  | error e m' => rfl

end Escapes

variable (cfg : Config)

theorem evaluation_escapes :
    (∀ b env e, Escapes (Eval.expr cfg b env e) (Escape.expr cfg b env e)) ∧
    (∀ b env es, Escapes (Eval.exprs cfg b env es) (Escape.exprs cfg b env es)) ∧
    (∀ b env ss, Escapes (Eval.block cfg b env ss) (Escape.block cfg b env ss)) ∧
    (∀ b env ss last, Escapes (Eval.stmtsFrom cfg b env ss last)
      (Escape.stmtsFrom cfg b env ss last)) ∧
    (∀ b env s, Escapes (Eval.stmt cfg b env s) (Escape.stmt cfg b env s)) := by
  apply Eval.expr.mutual_induct
  · intro budget env name
    rw [Eval.expr, Escape.expr]
    refine Escapes.get_bind fun m => ?_
    cases m.store.lookup env name with
    | some v => exact Escapes.pure_normal v
    | none => exact Escapes.plain _
  · intro budget env n
    rw [Eval.expr, Escape.expr]
    exact Escapes.pure_normal _
  · intro budget env b
    rw [Eval.expr, Escape.expr]
    exact Escapes.pure_normal _
  · intro env op arg
    rw [Eval.expr, Escape.expr]
    exact Escapes.fault _
  · intro env op arg b operand
    rw [Eval.expr, Escape.expr]
    exact Escapes.bind operand (fun _ => rfl) fun v => Escapes.plain _
  · intro env op lhs rhs
    rw [Eval.expr, Escape.expr]
    exact Escapes.fault _
  · intro env op lhs rhs b left right
    rw [Eval.expr, Escape.expr]
    refine Escapes.bind left (fun _ => rfl) fun l => ?_
    exact Escapes.bind right (fun _ => rfl) fun r => Escapes.plain _
  · intro budget env test thenBlock elseBlock condition thenPart elsePart
    cases elseBlock with
    | some stmts =>
      rw [Eval.expr, Escape.expr]
      refine Escapes.bind condition (fun _ => rfl) fun c => Escapes.plain_bind _ fun _ => ?_
      split
      · exact thenPart
      · exact elsePart
    | none =>
      rw [Eval.expr, Escape.expr]
      refine Escapes.bind condition (fun _ => rfl) fun c => Escapes.plain_bind _ fun _ => ?_
      split
      · exact thenPart
      · exact Escapes.pure_normal _
  · intro budget env params body
    rw [Eval.expr, Escape.expr]
    exact Escapes.pure_normal _
  · intro env callee args
    rw [Eval.expr, Escape.expr]
    exact Escapes.fault _
  · intro env callee args b function arguments running
    rw [Eval.expr, Escape.expr]
    refine Escapes.bind function (fun _ => rfl) fun v => ?_
    cases v
    case closure params body outer =>
      refine Escapes.bind arguments (fun _ => rfl) fun vals => ?_
      exact Escapes.plain_bind _ fun frame => Escapes.caught (running body frame)
    all_goals exact Escapes.plain _
  · intro budget env
    rw [Eval.exprs, Escape.exprs]
    exact Escapes.pure_normal _
  · intro budget env e rest first others
    rw [Eval.exprs, Escape.exprs]
    refine Escapes.bind first (fun _ => rfl) fun v => ?_
    exact Escapes.bind others (fun _ => rfl) fun vs => Escapes.pure_normal _
  · intro env stmts
    rw [Eval.block, Escape.block]
    exact Escapes.fault _
  · intro env stmts b run
    rw [Eval.block, Escape.block]
    exact run
  · intro budget env last
    rw [Eval.stmtsFrom, Escape.stmtsFrom]
    exact Escapes.pure_normal _
  · intro budget env s rest last first others
    rw [Eval.stmtsFrom, Escape.stmtsFrom]
    exact Escapes.bind first (fun _ => rfl) others
  · intro budget env name e value
    rw [Eval.stmt, Escape.stmt]
    refine Escapes.bind value (fun _ => rfl) fun v => ?_
    exact Escapes.modify_bind fun _ => Escapes.pure_normal _
  · intro budget env
    rw [Eval.stmt, Escape.stmt]
    exact Escapes.returning _
  · intro budget env e value
    rw [Eval.stmt, Escape.stmt]
    exact Escapes.bind value (fun _ => rfl) fun v => Escapes.returning v
  · intro budget env e value
    rw [Eval.stmt, Escape.stmt]
    exact value

theorem run_note (t : Trace) (m : Machine) :
    (Eval.note cfg t).run m =
      .ok ⟨⟩ (if cfg.trace then { m with trace := m.trace.push t } else m) := by
  unfold Eval.note
  split <;> rfl

theorem run_settle (y : EscapeM Value) (m : Machine) :
    (Escape.settle y).run m = match y.run m with
      | .ok v m' => .ok v m'
      | .error (.inr v) m' => .ok v m'
      | .error (.inl e) m' => .error e m' := rfl

theorem value_settles {x : EvalM (Completion Value)} {y : EscapeM Value} (agree : Escapes x y) :
    (do return (← x).value) = Escape.settle y := by
  funext m
  show (x >>= fun c => pure c.value).run m = (Escape.settle y).run m
  rw [EStateM.run_bind, run_settle, agree m]
  cases x.run m with
  | ok c m' => cases c <;> rfl
  | error e m' => rfl

theorem program_settles (env : FrameId) (ss : List Stmt) (last : Value) :
    Eval.program cfg env ss last = Escape.settle (Escape.program cfg env ss last) := by
  induction ss generalizing last with
  | nil => rfl
  | cons s rest ih =>
    funext m
    show (Eval.program cfg env (s :: rest) last).run m =
      (Escape.settle (Escape.program cfg env (s :: rest) last)).run m
    have statement : ∀ m, (Escape.stmt cfg cfg.maxDepth env s).run m =
        Completion.escape ((Eval.stmt cfg cfg.maxDepth env s).run m) :=
      (evaluation_escapes cfg).2.2.2.2 cfg.maxDepth env s
    simp only [Eval.program, Escape.program, run_settle, EStateM.run_bind, Escape.lift,
      EStateM.run_adaptExcept, run_note, statement]
    generalize (Eval.stmt cfg cfg.maxDepth env s).run _ = r
    cases r with
    | ok c m' =>
      cases c with
      | returning v => rfl
      | normal v =>
        simp only [Completion.escape, EStateM.run_bind, run_note, ih v, run_settle]
    | error e m' => rfl

/-- A `return` ends evaluation up to the nearest call, whose value it becomes, or else up to the
top level, where it ends the program or the node run on its own: evaluation with return
completions is evaluation in which a returned value escapes, and every way an interpreter
evaluates is that escaping evaluation with the escape caught at the top. -/
theorem return_escapes_to_call_or_top (cfg : Config) :
    (∀ b env e, Escapes (Eval.expr cfg b env e) (Escape.expr cfg b env e)) ∧
    (∀ b env ss, Escapes (Eval.block cfg b env ss) (Escape.block cfg b env ss)) ∧
    (∀ b env s, Escapes (Eval.stmt cfg b env s) (Escape.stmt cfg b env s)) ∧
    (∀ machine p, ({ config := cfg, machine } : Interpreter).eval p =
      ({ config := cfg, machine } : Interpreter).exec
        (Escape.settle (Escape.program cfg Interpreter.global p.stmts .null))) ∧
    (∀ machine node env, ({ config := cfg, machine } : Interpreter).evalIn node env =
      ({ config := cfg, machine } : Interpreter).exec
        (Escape.settle (Escape.node cfg env node))) := by
  obtain ⟨expressions, -, blocks, -, statements⟩ := evaluation_escapes cfg
  refine ⟨expressions, blocks, statements, fun machine p => ?_, fun machine node env => ?_⟩
  · simp only [Interpreter.eval, program_settles]
  · cases node with
    | program p => simp only [Interpreter.evalIn, Escape.node, program_settles]
    | block ss => simp only [Interpreter.evalIn, Escape.node, value_settles (blocks _ _ _)]
    | stmt s => simp only [Interpreter.evalIn, Escape.node, value_settles (statements _ _ _)]
    | expr e => simp only [Interpreter.evalIn, Escape.node, value_settles (expressions _ _ _)]
    | other what => rfl

end Monkey
