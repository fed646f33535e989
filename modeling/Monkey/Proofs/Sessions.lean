import Monkey.Interpreter
import Mathlib

/-!
# Programs split across evaluations

An interpreter keeps its machine between evaluations, and each top-level statement starts with
the full nesting budget, whatever ran before it. So a program may be split after any statement
that cannot end it early: evaluating the first part, then the second on the interpreter the first
leaves, ends exactly as evaluating the whole program at once, with the same machine (every frame,
the global one among them, and the trace) and with the second part's answer, or the first part's
when the second is empty.

What could tell the two apart is a `return` outside every function literal: it ends a whole
program, so in one evaluation it would skip the second part. `Stmt.mayReturn` finds one in the
syntax, and `never_returns` shows that evaluation without one never gives a returning completion.
-/

set_option autoImplicit false
set_option relaxedAutoImplicit false

namespace Monkey

mutual

/-- Whether an expression holds a `return` outside every function literal in it. -/
def Expr.mayReturn : Expr → Bool
  | .ident _ | .int _ | .bool _ | .func _ _ => false
  | .unop _ arg => arg.mayReturn
  | .binop _ lhs rhs => lhs.mayReturn || rhs.mayReturn
  | .cond test thenBlock none => test.mayReturn || stmtsMayReturn thenBlock
  | .cond test thenBlock (some elseBlock) =>
    test.mayReturn || stmtsMayReturn thenBlock || stmtsMayReturn elseBlock
  | .call callee args => callee.mayReturn || exprsMayReturn args

/-- Whether one of the expressions holds a `return` outside every function literal. -/
def exprsMayReturn : List Expr → Bool
  | [] => false
  | e :: rest => e.mayReturn || exprsMayReturn rest

/-- Whether a statement is or holds a `return` outside every function literal. -/
def Stmt.mayReturn : Stmt → Bool
  | .bind _ value => value.mayReturn
  | .ret _ => true
  | .expr e => e.mayReturn

/-- Whether one of the statements is or holds a `return` outside every function literal. -/
def stmtsMayReturn : List Stmt → Bool
  | [] => false
  | s :: rest => s.mayReturn || stmtsMayReturn rest

end

namespace Eval

/-- A step that never ends with a returning completion. -/
def NeverReturns {α : Type} (x : EvalM (Completion α)) : Prop :=
  ∀ m v m', x.run m ≠ .ok (.returning v) m'

namespace NeverReturns

variable {α β γ : Type}

theorem pure_normal (a : α) : NeverReturns (pure (.normal a) : EvalM (Completion α)) := by
  intro m v m' run
  cases run

theorem fault (e : EvalError) : NeverReturns (throw e : EvalM (Completion α)) := by
  intro m v m' run
  cases run

theorem normal_of (z : EvalM γ) (f : γ → α) :
    NeverReturns (z >>= fun c => pure (.normal (f c))) := by
  intro m v m' run
  rw [EStateM.run_bind] at run
  cases ran : z.run m <;> rw [ran] at run <;> cases run

theorem bind {x : EvalM (Completion α)} {k : Completion α → EvalM (Completion β)}
    (first : NeverReturns x) (rest : ∀ a, NeverReturns (k (.normal a))) :
    NeverReturns (x >>= k) := by
  intro m v m' run
  rw [EStateM.run_bind] at run
  cases ran : x.run m with
  | ok c m₁ =>
    rw [ran] at run
    cases c with
    | normal a => exact rest a m₁ v m' run
    | returning w => exact first m w m₁ ran
  | error e m₁ =>
    rw [ran] at run
    cases run

theorem plain_bind (z : EvalM γ) {k : γ → EvalM (Completion β)}
    (rest : ∀ c, NeverReturns (k c)) : NeverReturns (z >>= k) := by
  intro m v m' run
  rw [EStateM.run_bind] at run
  cases ran : z.run m with
  | ok c m₁ =>
    rw [ran] at run
    exact rest c m₁ v m' run
  | error e m₁ =>
    rw [ran] at run
    cases run

end NeverReturns

variable (cfg : Config)

theorem never_returns :
    (∀ b env e, e.mayReturn = false → NeverReturns (expr cfg b env e)) ∧
    (∀ b env es, exprsMayReturn es = false → NeverReturns (exprs cfg b env es)) ∧
    (∀ b env ss, stmtsMayReturn ss = false → NeverReturns (block cfg b env ss)) ∧
    (∀ b env ss last, stmtsMayReturn ss = false → NeverReturns (stmtsFrom cfg b env ss last)) ∧
    (∀ b env s, s.mayReturn = false → NeverReturns (stmt cfg b env s)) := by
  apply expr.mutual_induct
  · intro budget env name _
    rw [expr]
    refine NeverReturns.plain_bind _ fun m => ?_
    cases m.store.lookup env name with
    | some v => exact NeverReturns.pure_normal v
    | none => exact NeverReturns.normal_of _ id
  · intro budget env n _
    rw [expr]
    exact NeverReturns.pure_normal _
  · intro budget env b _
    rw [expr]
    exact NeverReturns.pure_normal _
  · intro env op arg _
    rw [expr]
    exact NeverReturns.fault _
  · intro env op arg b operand quiet
    rw [expr]
    exact NeverReturns.bind (operand quiet) fun v => NeverReturns.normal_of _ id
  · intro env op lhs rhs _
    rw [expr]
    exact NeverReturns.fault _
  · intro env op lhs rhs b left right quiet
    simp only [Expr.mayReturn, Bool.or_eq_false_iff] at quiet
    rw [expr]
    refine NeverReturns.bind (left quiet.1) fun l => ?_
    exact NeverReturns.bind (right quiet.2) fun r => NeverReturns.normal_of _ id
  · intro budget env test thenBlock elseBlock condition thenPart elsePart quiet
    cases elseBlock with
    | some stmts =>
      simp only [Expr.mayReturn, Bool.or_eq_false_iff] at quiet
      rw [expr]
      refine NeverReturns.bind (condition quiet.1.1) fun c => NeverReturns.plain_bind _ fun _ => ?_
      split
      · exact thenPart quiet.1.2
      · exact elsePart quiet.2
    | none =>
      simp only [Expr.mayReturn, Bool.or_eq_false_iff] at quiet
      rw [expr]
      refine NeverReturns.bind (condition quiet.1) fun c => NeverReturns.plain_bind _ fun _ => ?_
      split
      · exact thenPart quiet.2
      · exact NeverReturns.pure_normal _
  · intro budget env params body _
    rw [expr]
    exact NeverReturns.pure_normal _
  · intro env callee args _
    rw [expr]
    exact NeverReturns.fault _
  · intro env callee args b function arguments _ quiet
    simp only [Expr.mayReturn, Bool.or_eq_false_iff] at quiet
    rw [expr]
    refine NeverReturns.bind (function quiet.1) fun v => ?_
    cases v
    case closure params body outer =>
      refine NeverReturns.bind (arguments quiet.2) fun vals => ?_
      -- whatever the body gives, the call's completion is normal
      exact NeverReturns.plain_bind _ fun frame => NeverReturns.normal_of _ Completion.value
    all_goals exact NeverReturns.normal_of _ id
  · intro budget env _
    rw [exprs]
    exact NeverReturns.pure_normal _
  · intro budget env e rest first others quiet
    simp only [exprsMayReturn, Bool.or_eq_false_iff] at quiet
    rw [exprs]
    refine NeverReturns.bind (first quiet.1) fun v => ?_
    exact NeverReturns.bind (others quiet.2) fun vs => NeverReturns.pure_normal _
  · intro env stmts _
    rw [block]
    exact NeverReturns.fault _
  · intro env stmts b run quiet
    rw [block]
    exact run quiet
  · intro budget env last _
    rw [stmtsFrom]
    exact NeverReturns.pure_normal _
  · intro budget env s rest last first others quiet
    simp only [stmtsMayReturn, Bool.or_eq_false_iff] at quiet
    rw [stmtsFrom]
    exact NeverReturns.bind (first quiet.1) fun v => others v quiet.2
  · intro budget env name e value quiet
    rw [stmt]
    refine NeverReturns.bind (value quiet) fun v => ?_
    exact NeverReturns.plain_bind _ fun _ => NeverReturns.pure_normal _
  · intro budget env quiet
    cases quiet
  · intro budget env e _ quiet
    cases quiet
  · intro budget env e value quiet
    rw [stmt]
    exact value quiet

theorem program_cons_last (env : FrameId) (s : Stmt) (rest : List Stmt) (last last' : Value) :
    program cfg env (s :: rest) last = program cfg env (s :: rest) last' := by
  rw [program, program]

theorem program_append (env : FrameId) (xs ys : List Stmt) (last : Value)
    (quiet : stmtsMayReturn xs = false) :
    program cfg env (xs ++ ys) last = program cfg env xs last >>= program cfg env ys := by
  induction xs generalizing last with
  | nil => rfl
  | cons s rest ih =>
    simp only [stmtsMayReturn, Bool.or_eq_false_iff] at quiet
    have normal := (never_returns cfg).2.2.2.2 cfg.maxDepth env s quiet.1
    funext m
    simp only [List.cons_append, program, bind_assoc]
    show (note cfg (.statement s) >>= _).run m = (note cfg (.statement s) >>= _).run m
    rw [EStateM.run_bind, EStateM.run_bind]
    cases (note cfg (.statement s)).run m with
    | ok u m₁ =>
      dsimp only
      rw [EStateM.run_bind, EStateM.run_bind]
      cases ran : (stmt cfg cfg.maxDepth env s).run m₁ with
      | ok c m₂ =>
        cases c with
        | returning v => exact absurd ran (normal m₁ v m₂)
        | normal v =>
          dsimp only
          rw [ih v quiet.2, bind_assoc]
      | error e m₂ => rfl
    | error e m₁ => rfl

end Eval

namespace Interpreter

/-- Splitting a program after statements that cannot return changes nothing: once the first part
has run on an interpreter to a value, running the second on the interpreter it leaves answers and
leaves the interpreter exactly as running the whole program in one evaluation does; when the
second part is empty, the whole program's answer is the first part's value. -/
theorem eval_split_after_quiet_statements (ip : Interpreter) (p q : Program)
    (quiet : stmtsMayReturn p.stmts = false) {v : Value} {ip₁ : Interpreter}
    (first : ip.eval p = (.ok v, ip₁)) :
    ip.eval ⟨p.stmts ++ q.stmts⟩ = if q.stmts = [] then (.ok v, ip₁) else ip₁.eval q := by
  unfold eval exec at first ⊢
  rw [Eval.program_append _ _ _ _ _ quiet, EStateM.run_bind]
  cases ran : (Eval.program ip.config global p.stmts .null).run ip.machine with
  | ok w m₁ =>
    rw [ran] at first
    cases first
    dsimp only
    cases stmts : q.stmts with
    | nil => rfl
    | cons s rest => rw [if_neg (List.cons_ne_nil s rest), Eval.program_cons_last]
  | error e m₁ =>
    rw [ran] at first
    cases first

/-- `let x = 1;` then `x`, split in two evaluations, reads the binding the first one made. -/
theorem eval_split_binding_then_use :
    stmtsMayReturn [.bind "x" (.int 1)] = false ∧
    (create false 0 false).eval ⟨[.bind "x" (.int 1)]⟩ =
      (.ok (.int 1),
        { config := (create false 0 false).config
          machine := { store := ⟨#[⟨none, [("x", .int 1)]⟩]⟩ } }) ∧
    (create false 0 false).eval ⟨[.bind "x" (.int 1)] ++ [.expr (.ident "x")]⟩ =
      Interpreter.eval
        { config := (create false 0 false).config
          machine := { store := ⟨#[⟨none, [("x", .int 1)]⟩]⟩ } }
        ⟨[.expr (.ident "x")]⟩ := by
  have quiet : stmtsMayReturn [.bind "x" (.int 1)] = false := rfl
  have first : (create false 0 false).eval ⟨[.bind "x" (.int 1)]⟩ =
      (.ok (.int 1),
        { config := (create false 0 false).config
          machine := { store := ⟨#[⟨none, [("x", .int 1)]⟩]⟩ } }) := by
    cbv
  exact ⟨quiet, first, (eval_split_after_quiet_statements _ ⟨_⟩ ⟨[.expr (.ident "x")]⟩ quiet first).trans
    (if_neg (List.cons_ne_nil _ _))⟩

end Interpreter

end Monkey
