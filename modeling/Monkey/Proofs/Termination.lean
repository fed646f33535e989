import Monkey.Proofs.Sessions

/-!
# Evaluation ends

The evaluator recurses as the source writes it: a counter of open nested steps lives in its
state, `enter` raises it before a unary or binary operation, a call or a block and fails once it
passes the limit, and `leave` lowers it after the step. Nothing in that recursion bounds it on
its face: a call runs a body taken from a closure, as large as any, which may call itself again.
`Nested` writes the recursion so, with no termination argument: each function is given a number
of unfoldings, spends one on entry and passes the rest to the calls it makes, and a run that
needs more than it was given is cut short with `none`.

Every run ends, and ends as the budgeted evaluator does: past some number of unfoldings it is
never cut short. What is left of the limit goes down at every step that runs a body, and between
such steps evaluation moves to parts of the node at hand, so the pair (limit left, size of the
node) falls at every recursive step. `nested_ends` follows exactly that order, the budgeted
evaluator's own induction, and `evaluation_terminates` reads it at the interpreter's entry
points.
-/
set_option autoImplicit false
set_option relaxedAutoImplicit false

namespace Monkey

/-- The evaluator's state as the source keeps it: the machine, and how many nested steps are
open. -/
structure Nesting where
  machine : Machine
  depth : Nat

/-- Evaluation with the nesting counter in its state; `none` is a run cut short. -/
abbrev NestedM := ExceptT EvalError (StateT Nesting Option)

namespace Nested

open Eval (degrade note unary binary enterFrame)

/-- A run cut short: it needed more unfoldings than it was given. -/
def stuck {α : Type} : NestedM α := ExceptT.mk fun _ => none

/-- A step on the machine alone, the counter untouched. -/
def lift {α : Type} (x : EvalM α) : NestedM α := ExceptT.mk fun s =>
  match x.run s.machine with
  | .ok a m => some (.ok a, { s with machine := m })
  | .error e m => some (.error e, { s with machine := m })

/-- Opens a nested step: the counter goes up, and past the limit evaluation stops. -/
def enter (cfg : Config) : NestedM Unit := do
  let s ← get
  set { s with depth := s.depth + 1 }
  if cfg.maxDepth < s.depth + 1 then throw (.stackLimit cfg.maxDepth)

/-- Closes a nested step. -/
def leave : NestedM Unit := modify fun s => { s with depth := s.depth - 1 }

/-- A nested step as the source runs one: `enter` before it and `leave` after it. -/
def nest {α : Type} (cfg : Config) (y : NestedM α) : NestedM α := do
  enter cfg
  let c ← y
  leave
  pure c

mutual

/-- Evaluates an expression within a number of unfoldings. -/
def expr (cfg : Config) (env : FrameId) : Nat → Expr → NestedM (Completion Value)
  | 0, _ => stuck
  | _ + 1, .ident name => do
    match (← get).machine.store.lookup env name with
    | some v => pure (.normal v)
    | none => return .normal (← lift (degrade cfg (.unbound name)))
  | _ + 1, .int n => pure (.normal (.int n))
  | _ + 1, .bool b => pure (.normal (.bool b))
  | fuel + 1, .unop op arg => nest cfg do
    match ← expr cfg env fuel arg with
    | .returning v => pure (.returning v)
    | .normal v => return .normal (← lift (unary cfg op v))
  | fuel + 1, .binop op lhs rhs => nest cfg do
    match ← expr cfg env fuel lhs with
    | .returning v => pure (.returning v)
    | .normal l =>
      match ← expr cfg env fuel rhs with
      | .returning v => pure (.returning v)
      | .normal r => return .normal (← lift (binary cfg op l r))
  | fuel + 1, .cond test thenBlock elseBlock => do
    match ← expr cfg env fuel test with
    | .returning v => pure (.returning v)
    | .normal c =>
      lift (note cfg (.condition test c))
      if c.truthy then block cfg env fuel thenBlock
      else
        match elseBlock with
        | some stmts => block cfg env fuel stmts
        | none => pure (.normal .null)
  | _ + 1, .func params body => pure (.normal (.closure params body env))
  | fuel + 1, .call callee args => nest cfg do
    match ← expr cfg env fuel callee with
    | .returning v => pure (.returning v)
    | .normal (.closure params body outer) =>
      match ← exprs cfg env fuel args with
      | .returning v => pure (.returning v)
      | .normal vals =>
        let frame ← lift (enterFrame outer params vals)
        return .normal (← block cfg frame fuel body).value
    | .normal _ => return .normal (← lift (degrade cfg (.notCallable callee)))

/-- Evaluates expressions left to right, stopping at a returning one. -/
def exprs (cfg : Config) (env : FrameId) : Nat → List Expr → NestedM (Completion (List Value))
  | 0, _ => stuck
  | _ + 1, [] => pure (.normal [])
  | fuel + 1, e :: rest => do
    match ← expr cfg env fuel e with
    | .returning v => pure (.returning v)
    | .normal v =>
      match ← exprs cfg env fuel rest with
      | .returning w => pure (.returning w)
      | .normal vs => pure (.normal (v :: vs))

/-- Runs a block as one nested step. -/
def block (cfg : Config) (env : FrameId) : Nat → List Stmt → NestedM (Completion Value)
  | 0, _ => stuck
  | fuel + 1, stmts => nest cfg (stmtsFrom cfg env fuel stmts .null)

/-- Runs statements in order, stopping at a returning one. -/
def stmtsFrom (cfg : Config) (env : FrameId) :
    Nat → List Stmt → Value → NestedM (Completion Value)
  | 0, _, _ => stuck
  | _ + 1, [], last => pure (.normal last)
  | fuel + 1, s :: rest, _ => do
    match ← stmt cfg env fuel s with
    | .returning v => pure (.returning v)
    | .normal v => stmtsFrom cfg env fuel rest v

/-- Runs a statement. -/
def stmt (cfg : Config) (env : FrameId) : Nat → Stmt → NestedM (Completion Value)
  | 0, _ => stuck
  | fuel + 1, .bind name e => do
    match ← expr cfg env fuel e with
    | .returning v => pure (.returning v)
    | .normal v =>
      lift (modify fun m => { m with store := m.store.define env name v })
      pure (.normal v)
  | _ + 1, .ret none => pure (.returning .null)
  | fuel + 1, .ret (some e) => do
    match ← expr cfg env fuel e with
    | .returning v => pure (.returning v)
    | .normal v => pure (.returning v)
  | fuel + 1, .expr e => expr cfg env fuel e

end

/-- Runs top-level statements, each from the counter it starts at and within the unfoldings
given; a returning statement ends the run with its value. -/
def program (cfg : Config) (env : FrameId) (fuel : Nat) : List Stmt → Value → NestedM Value
  | [], last => pure last
  | s :: rest, _ => do
    lift (note cfg (.statement s))
    match ← stmt cfg env fuel s with
    | .returning v => pure v
    | .normal v =>
      lift (note cfg (.output v))
      program cfg env fuel rest v

/-- Evaluates a node on its own within the unfoldings given; a returning completion gives its
value. -/
def node (cfg : Config) (env : FrameId) (fuel : Nat) : Node → NestedM Value
  | .program p => program cfg env fuel p.stmts .null
  | .block stmts => do return (← block cfg env fuel stmts).value
  | .stmt s => do return (← stmt cfg env fuel s).value
  | .expr e => do return (← expr cfg env fuel e).value
  | .other what => throw (.unsupported ("cannot evaluate " ++ what))

end Nested

/-- How a nested run ends, given how the budgeted run ended: with the same answer and machine,
and, when it answers, with the counter back where it started. A run cut short matches nothing. -/
def Lands {α : Type} (r : EStateM.Result EvalError Machine α) (d : Nat)
    (o : Option (Except EvalError α × Nesting)) : Prop :=
  match r with
  | .ok a m => o = some (.ok a, ⟨m, d⟩)
  | .error e m => ∃ d', o = some (.error e, ⟨m, d'⟩)

/-- A budgeted step and a nested step started with `d` steps open end alike from every machine,
once the nested one is given enough unfoldings. -/
def Tracks {α : Type} (x : EvalM α) (y : Nat → NestedM α) (d : Nat) : Prop :=
  ∀ m, ∃ n, ∀ fuel, n ≤ fuel → Lands (x.run m) d ((y fuel).run.run ⟨m, d⟩)

namespace Tracks

variable {α β : Type} {d : Nat}

theorem pure (a : α) : Tracks (Pure.pure a : EvalM α) (fun _ => Pure.pure a) d :=
  fun _ => ⟨0, fun _ _ => rfl⟩

theorem fault (e : EvalError) : Tracks (throw e : EvalM α) (fun _ => throw e) d :=
  fun _ => ⟨0, fun _ _ => ⟨d, rfl⟩⟩

theorem lift (x : EvalM α) : Tracks x (fun _ => Nested.lift x) d := by
  intro m
  refine ⟨0, fun _ _ => ?_⟩
  show Lands (x.run m) d (match x.run m with
    | .ok a m' => some (.ok a, ⟨m', d⟩)
    | .error e m' => some (.error e, ⟨m', d⟩))
  cases x.run m with
  | ok a m' => rfl
  | error e m' => exact ⟨d, rfl⟩

theorem bind {x : EvalM α} {y : Nat → NestedM α} {k : α → EvalM β} {l : Nat → α → NestedM β}
    (first : Tracks x y d) (rest : ∀ a, Tracks (k a) (fun fuel => l fuel a) d) :
    Tracks (x >>= k) (fun fuel => y fuel >>= l fuel) d := by
  intro m
  obtain ⟨n, landed⟩ := first m
  cases ran : x.run m with
  | ok a m' =>
    obtain ⟨n', landed'⟩ := rest a m'
    refine ⟨max n n', fun fuel enough => ?_⟩
    have now := landed fuel (le_of_max_le_left enough)
    rw [ran] at now
    rw [EStateM.run_bind, ran, ExceptT.run_bind, StateT.run_bind,
      show (y fuel).run.run ⟨m, d⟩ = some (.ok a, ⟨m', d⟩) from now]
    exact landed' fuel (le_of_max_le_right enough)
  | error e m' =>
    refine ⟨n, fun fuel enough => ?_⟩
    have now := landed fuel enough
    rw [ran] at now
    obtain ⟨d', now⟩ := now
    rw [EStateM.run_bind, ran, ExceptT.run_bind, StateT.run_bind, now]
    exact ⟨d', rfl⟩

theorem get_bind {k : Machine → EvalM β} {l : Nat → Nesting → NestedM β}
    (rest : ∀ m, Tracks (k m) (fun fuel => l fuel ⟨m, d⟩) d) :
    Tracks (get >>= k) (fun fuel => get >>= l fuel) d :=
  fun m => rest m m

theorem unfold {x : EvalM α} {y z : Nat → NestedM α} (step : ∀ fuel, y (fuel + 1) = z fuel)
    (body : Tracks x z d) : Tracks x y d := by
  intro m
  obtain ⟨n, landed⟩ := body m
  refine ⟨n + 1, fun fuel enough => ?_⟩
  obtain ⟨fuel, rfl⟩ : ∃ f, fuel = f + 1 := ⟨fuel - 1, by omega⟩
  rw [step]
  exact landed fuel (by omega)

theorem run_enter (cfg : Config) (s : Nesting) :
    (Nested.enter cfg).run.run s =
      some (if cfg.maxDepth < s.depth + 1 then .error (.stackLimit cfg.maxDepth) else .ok (),
        { s with depth := s.depth + 1 }) := by
  show (if cfg.maxDepth < s.depth + 1 then (throw (.stackLimit cfg.maxDepth) : NestedM Unit)
    else Pure.pure ()).run.run { s with depth := s.depth + 1 } = _
  split <;> rfl

theorem run_leave (s : Nesting) :
    Nested.leave.run.run s = some (.ok (), { s with depth := s.depth - 1 }) := rfl

theorem nest_zero {cfg : Config} (full : d = cfg.maxDepth) (y : Nat → NestedM α) :
    Tracks (throw (.stackLimit cfg.maxDepth) : EvalM α) (fun fuel => Nested.nest cfg (y fuel))
      d := by
  intro m
  refine ⟨0, fun fuel _ => ⟨d + 1, ?_⟩⟩
  dsimp only
  rw [Nested.nest, ExceptT.run_bind, StateT.run_bind, run_enter,
    if_pos (by dsimp only; omega)]
  rfl

theorem nest_succ {cfg : Config} (room : d < cfg.maxDepth) {x : EvalM α} {y : Nat → NestedM α}
    (inner : Tracks x y (d + 1)) : Tracks x (fun fuel => Nested.nest cfg (y fuel)) d := by
  intro m
  obtain ⟨n, landed⟩ := inner m
  refine ⟨n, fun fuel enough => ?_⟩
  have now := landed fuel enough
  dsimp only
  rw [Nested.nest, ExceptT.run_bind, StateT.run_bind, run_enter,
    if_neg (by dsimp only; omega)]
  show Lands (x.run m) d
    ((y fuel >>= fun c => Nested.leave >>= fun _ => Pure.pure c).run.run ⟨m, d + 1⟩)
  rw [ExceptT.run_bind, StateT.run_bind]
  cases ran : x.run m with
  | ok a m' =>
    rw [ran] at now
    rw [show (y fuel).run.run ⟨m, d + 1⟩ = some (.ok a, ⟨m', d + 1⟩) from now]
    rfl
  | error e m' =>
    rw [ran] at now
    obtain ⟨d', now⟩ := now
    rw [now]
    exact ⟨d', rfl⟩

end Tracks

variable (cfg : Config)

theorem nested_ends :
    (∀ b env e d, d + b = cfg.maxDepth →
      Tracks (Eval.expr cfg b env e) (fun fuel => Nested.expr cfg env fuel e) d) ∧
    (∀ b env es d, d + b = cfg.maxDepth →
      Tracks (Eval.exprs cfg b env es) (fun fuel => Nested.exprs cfg env fuel es) d) ∧
    (∀ b env ss d, d + b = cfg.maxDepth →
      Tracks (Eval.block cfg b env ss) (fun fuel => Nested.block cfg env fuel ss) d) ∧
    (∀ b env ss last d, d + b = cfg.maxDepth →
      Tracks (Eval.stmtsFrom cfg b env ss last) (fun fuel => Nested.stmtsFrom cfg env fuel ss last)
        d) ∧
    (∀ b env s d, d + b = cfg.maxDepth →
      Tracks (Eval.stmt cfg b env s) (fun fuel => Nested.stmt cfg env fuel s) d) := by
  apply Eval.expr.mutual_induct
  · intro budget env name d _
    refine Tracks.unfold (fun fuel => by rw [Nested.expr]) ?_
    rw [Eval.expr]
    refine Tracks.get_bind fun m => ?_
    dsimp only
    cases m.store.lookup env name with
    | some v => exact Tracks.pure _
    | none => exact Tracks.bind (Tracks.lift _) fun v => Tracks.pure _
  · intro budget env n d _
    refine Tracks.unfold (fun fuel => by rw [Nested.expr]) ?_
    rw [Eval.expr]
    exact Tracks.pure _
  · intro budget env b d _
    refine Tracks.unfold (fun fuel => by rw [Nested.expr]) ?_
    rw [Eval.expr]
    exact Tracks.pure _
  · intro env op arg d full
    refine Tracks.unfold (fun fuel => by rw [Nested.expr]) ?_
    rw [Eval.expr]
    exact Tracks.nest_zero (by omega) _
  · intro env op arg b operand d within
    refine Tracks.unfold (fun fuel => by rw [Nested.expr]) ?_
    rw [Eval.expr]
    refine Tracks.nest_succ (by omega) (Tracks.bind (operand (d + 1) (by omega)) fun c => ?_)
    cases c with
    | returning v => exact Tracks.pure _
    | normal v => exact Tracks.bind (Tracks.lift _) fun r => Tracks.pure _
  · intro env op lhs rhs d full
    refine Tracks.unfold (fun fuel => by rw [Nested.expr]) ?_
    rw [Eval.expr]
    exact Tracks.nest_zero (by omega) _
  · intro env op lhs rhs b left right d within
    refine Tracks.unfold (fun fuel => by rw [Nested.expr]) ?_
    rw [Eval.expr]
    refine Tracks.nest_succ (by omega) (Tracks.bind (left (d + 1) (by omega)) fun c => ?_)
    cases c with
    | returning v => exact Tracks.pure _
    | normal l =>
      refine Tracks.bind (right (d + 1) (by omega)) fun c => ?_
      cases c with
      | returning v => exact Tracks.pure _
      | normal r => exact Tracks.bind (Tracks.lift _) fun v => Tracks.pure _
  · intro budget env test thenBlock elseBlock condition thenPart elsePart d within
    cases elseBlock with
    | some stmts =>
      refine Tracks.unfold (fun fuel => by rw [Nested.expr]) ?_
      rw [Eval.expr]
      refine Tracks.bind (condition d within) fun c => ?_
      cases c with
      | returning v => exact Tracks.pure _
      | normal c =>
        refine Tracks.bind (Tracks.lift _) fun _ => ?_
        split
        · exact thenPart d within
        · exact elsePart d within
    | none =>
      refine Tracks.unfold (fun fuel => by rw [Nested.expr]) ?_
      rw [Eval.expr]
      refine Tracks.bind (condition d within) fun c => ?_
      cases c with
      | returning v => exact Tracks.pure _
      | normal c =>
        refine Tracks.bind (Tracks.lift _) fun _ => ?_
        split
        · exact thenPart d within
        · exact Tracks.pure _
  · intro budget env params body d _
    refine Tracks.unfold (fun fuel => by rw [Nested.expr]) ?_
    rw [Eval.expr]
    exact Tracks.pure _
  · intro env callee args d full
    refine Tracks.unfold (fun fuel => by rw [Nested.expr]) ?_
    rw [Eval.expr]
    exact Tracks.nest_zero (by omega) _
  · intro env callee args b function arguments running d within
    refine Tracks.unfold (fun fuel => by rw [Nested.expr]) ?_
    rw [Eval.expr]
    refine Tracks.nest_succ (by omega) (Tracks.bind (function (d + 1) (by omega)) fun c => ?_)
    cases c with
    | returning v => exact Tracks.pure _
    | normal v =>
      cases v
      case closure params body outer =>
        refine Tracks.bind (arguments (d + 1) (by omega)) fun c => ?_
        cases c with
        | returning v => exact Tracks.pure _
        | normal vals =>
          -- the body is no part of the call, but it runs one step deeper
          refine Tracks.bind (Tracks.lift _) fun frame => ?_
          exact Tracks.bind (running body frame (d + 1) (by omega)) fun c => Tracks.pure _
      all_goals exact Tracks.bind (Tracks.lift _) fun v => Tracks.pure _
  · intro budget env d _
    refine Tracks.unfold (fun fuel => by rw [Nested.exprs]) ?_
    rw [Eval.exprs]
    exact Tracks.pure _
  · intro budget env e rest first others d within
    refine Tracks.unfold (fun fuel => by rw [Nested.exprs]) ?_
    rw [Eval.exprs]
    refine Tracks.bind (first d within) fun c => ?_
    cases c with
    | returning v => exact Tracks.pure _
    | normal v =>
      refine Tracks.bind (others d within) fun c => ?_
      cases c with
      | returning w => exact Tracks.pure _
      | normal vs => exact Tracks.pure _
  · intro env stmts d full
    refine Tracks.unfold (fun fuel => by rw [Nested.block]) ?_
    rw [Eval.block]
    exact Tracks.nest_zero (by omega) _
  · intro env stmts b run d within
    refine Tracks.unfold (fun fuel => by rw [Nested.block]) ?_
    rw [Eval.block]
    exact Tracks.nest_succ (by omega) (run (d + 1) (by omega))
  · intro budget env last d _
    refine Tracks.unfold (fun fuel => by rw [Nested.stmtsFrom]) ?_
    rw [Eval.stmtsFrom]
    exact Tracks.pure _
  · intro budget env s rest last first others d within
    refine Tracks.unfold (fun fuel => by rw [Nested.stmtsFrom]) ?_
    rw [Eval.stmtsFrom]
    refine Tracks.bind (first d within) fun c => ?_
    cases c with
    | returning v => exact Tracks.pure _
    | normal v => exact others v d within
  · intro budget env name e value d within
    refine Tracks.unfold (fun fuel => by rw [Nested.stmt]) ?_
    rw [Eval.stmt]
    refine Tracks.bind (value d within) fun c => ?_
    cases c with
    | returning v => exact Tracks.pure _
    | normal v => exact Tracks.bind (Tracks.lift _) fun _ => Tracks.pure _
  · intro budget env d _
    refine Tracks.unfold (fun fuel => by rw [Nested.stmt]) ?_
    rw [Eval.stmt]
    exact Tracks.pure _
  · intro budget env e value d within
    refine Tracks.unfold (fun fuel => by rw [Nested.stmt]) ?_
    rw [Eval.stmt]
    refine Tracks.bind (value d within) fun c => ?_
    cases c with
    | returning v => exact Tracks.pure _
    | normal v => exact Tracks.pure _
  · intro budget env e value d within
    refine Tracks.unfold (fun fuel => by rw [Nested.stmt]) ?_
    rw [Eval.stmt]
    exact value d within

theorem program_ends (env : FrameId) (ss : List Stmt) (last : Value) :
    Tracks (Eval.program cfg env ss last) (fun fuel => Nested.program cfg env fuel ss last) 0 := by
  induction ss generalizing last with
  | nil => exact Tracks.pure _
  | cons s rest ih =>
    rw [Eval.program]
    refine Tracks.bind (Tracks.lift _) fun _ => ?_
    refine Tracks.bind ((nested_ends cfg).2.2.2.2 _ env s 0 (Nat.zero_add _)) fun c => ?_
    cases c with
    | returning v => exact Tracks.pure _
    | normal v => exact Tracks.bind (Tracks.lift _) fun _ => ih v

theorem Tracks.exec {α : Type} {x : EvalM α} {y : Nat → NestedM α} (ip : Interpreter)
    (tracks : Tracks x y 0) :
    ∃ n, ∀ fuel, n ≤ fuel → ∃ r s, (y fuel).run.run ⟨ip.machine, 0⟩ = some (r, s) ∧
      ip.exec x = (r, { ip with machine := s.machine }) := by
  obtain ⟨n, landed⟩ := tracks ip.machine
  refine ⟨n, fun fuel enough => ?_⟩
  have now := landed fuel enough
  unfold Interpreter.exec
  cases ran : x.run ip.machine with
  | ok a m =>
    rw [ran] at now
    exact ⟨.ok a, ⟨m, 0⟩, now, rfl⟩
  | error e m =>
    rw [ran] at now
    obtain ⟨d', now⟩ := now
    exact ⟨.error e, ⟨m, d'⟩, now, rfl⟩

/-- Every evaluation of an interpreter ends, whatever its machine and configuration (strict or
lenient, any nesting limit), for every node and frame: the recursion as the source writes it,
with its counter of open steps and no termination argument, is never cut short once it is given
enough unfoldings, and it then answers exactly as the interpreter does and leaves the same
machine. -/
theorem evaluation_terminates (ip : Interpreter) :
    (∀ node env, ∃ n, ∀ fuel, n ≤ fuel → ∃ r s,
      (Nested.node ip.config env fuel node).run.run ⟨ip.machine, 0⟩ = some (r, s) ∧
        ip.evalIn node env = (r, { ip with machine := s.machine })) ∧
    (∀ p, ∃ n, ∀ fuel, n ≤ fuel → ∃ r s,
      (Nested.program ip.config Interpreter.global fuel p.stmts .null).run.run
          ⟨ip.machine, 0⟩ = some (r, s) ∧
        ip.eval p = (r, { ip with machine := s.machine })) := by
  obtain ⟨expressions, -, blocks, -, statements⟩ := nested_ends ip.config
  refine ⟨fun node env => ?_, fun p => (program_ends ip.config _ p.stmts .null).exec ip⟩
  cases node with
  | program p => exact (program_ends ip.config env p.stmts .null).exec ip
  | block ss =>
    exact (Tracks.bind (blocks _ env ss 0 (Nat.zero_add _)) fun c => Tracks.pure _).exec ip
  | stmt s =>
    exact (Tracks.bind (statements _ env s 0 (Nat.zero_add _)) fun c => Tracks.pure _).exec ip
  | expr e =>
    exact (Tracks.bind (expressions _ env e 0 (Nat.zero_add _)) fun c => Tracks.pure _).exec ip
  | other what => exact (Tracks.fault _).exec ip

end Monkey
