import Monkey.Interpreter
import Mathlib

/-!
# Raising the nesting limit

Evaluation reads its nesting limit in one place only: a unary or binary operation, a call or a
block met with no budget left stops with a stack-limit error. Everything else is the same under
every limit, and a larger budget runs out at every node only after a smaller one has. So a run
under a smaller limit either stops at the limit, or does exactly what the run under a larger limit
does: the same value or the same error, and the same machine afterwards.

`Eval.WithinLimit x y` says this of two evaluation steps, and is closed under `bind`. Every
evaluation function is within its twin under a larger budget and a larger configured limit
(`Eval.budget_within`, by induction along the evaluator's own recursion), and so is a whole program
(`Eval.program_within`). For an interpreter, limits are requested as integers, where a request that
is not positive stands for the default of 10000 (`Config.depthOf`): raising the effective limit
keeps every answer that did not stop at the limit (`eval_within_larger_limit`), while raising a
request from 0 to 1 lowers the limit and can turn a value into a stack-limit error
(`raising_zero_request_lowers_limit`).
-/

set_option autoImplicit false
set_option relaxedAutoImplicit false

namespace Monkey

namespace Eval

/-- A run that stopped at the nesting limit. -/
def StopsAtLimit {α : Type} (r : EStateM.Result EvalError Machine α) : Prop :=
  ∃ e m, r = .error e m ∧ e.kind = .stackLimit

/-- From every machine, the step `x` answers exactly as `y` does, unless it stops at the nesting
limit. -/
def WithinLimit {α : Type} (x y : EvalM α) : Prop :=
  ∀ m, StopsAtLimit (x.run m) ∨ x.run m = y.run m

namespace WithinLimit

variable {α β : Type}

theorem refl (x : EvalM α) : WithinLimit x x := fun _ => .inr rfl

theorem stop (n : Nat) (y : EvalM α) : WithinLimit (throw (.stackLimit n)) y :=
  fun m => .inl ⟨_, m, rfl, rfl⟩

theorem bind {x y : EvalM α} {k l : α → EvalM β} (first : WithinLimit x y)
    (rest : ∀ a, WithinLimit (k a) (l a)) : WithinLimit (x >>= k) (y >>= l) := by
  intro m
  rw [EStateM.run_bind, EStateM.run_bind]
  rcases first m with ⟨e, m', stopped, atLimit⟩ | same
  · rw [stopped]
    exact .inl ⟨e, m', rfl, atLimit⟩
  · rw [← same]
    cases x.run m with
    | ok a m' => exact rest a m'
    | error e m' => exact .inr rfl

theorem bind_right (x : EvalM α) {k l : α → EvalM β} (rest : ∀ a, WithinLimit (k a) (l a)) :
    WithinLimit (x >>= k) (x >>= l) :=
  (refl x).bind rest

end WithinLimit

/-! The steps that do not recurse read the strictness and the tracing switch of a configuration,
never its limit. -/

section Limit

variable (cfg : Config) (d : Nat)

@[simp] theorem note_limit (t : Trace) : note { cfg with maxDepth := d } t = note cfg t := rfl

@[simp] theorem degrade_limit (e : EvalError) :
    degrade { cfg with maxDepth := d } e = degrade cfg e := rfl

@[simp] theorem unary_limit (op : UnOp) (v : Value) :
    unary { cfg with maxDepth := d } op v = unary cfg op v := rfl

@[simp] theorem binary_limit (op : BinOp) (l r : Value) :
    binary { cfg with maxDepth := d } op l r = binary cfg op l r := rfl

end Limit

theorem exists_succ_of_succ_le {b b' : Nat} (room : b + 1 ≤ b') : ∃ c, b' = c + 1 ∧ b ≤ c :=
  ⟨b' - 1, by omega, by omega⟩

variable (cfg : Config) (d : Nat)

theorem budget_within :
    (∀ b env e b', b ≤ b' →
      WithinLimit (expr cfg b env e) (expr { cfg with maxDepth := d } b' env e)) ∧
    (∀ b env es b', b ≤ b' →
      WithinLimit (exprs cfg b env es) (exprs { cfg with maxDepth := d } b' env es)) ∧
    (∀ b env ss b', b ≤ b' →
      WithinLimit (block cfg b env ss) (block { cfg with maxDepth := d } b' env ss)) ∧
    (∀ b env ss last b', b ≤ b' →
      WithinLimit (stmtsFrom cfg b env ss last)
        (stmtsFrom { cfg with maxDepth := d } b' env ss last)) ∧
    (∀ b env s b', b ≤ b' →
      WithinLimit (stmt cfg b env s) (stmt { cfg with maxDepth := d } b' env s)) := by
  apply expr.mutual_induct
  · intro budget env name b' _
    simp only [expr, degrade_limit]
    exact WithinLimit.refl _
  · intro budget env n b' _
    rw [expr, expr]
    exact WithinLimit.refl _
  · intro budget env b b' _
    rw [expr, expr]
    exact WithinLimit.refl _
  · intro env op arg b' _
    rw [expr]
    exact WithinLimit.stop _ _
  · intro env op arg b operand b' room
    obtain ⟨c, rfl, fits⟩ := exists_succ_of_succ_le room
    simp only [expr, unary_limit]
    refine (operand c fits).bind fun v => ?_
    cases v <;> exact WithinLimit.refl _
  · intro env op lhs rhs b' _
    rw [expr]
    exact WithinLimit.stop _ _
  · intro env op lhs rhs b left right b' room
    obtain ⟨c, rfl, fits⟩ := exists_succ_of_succ_le room
    simp only [expr, binary_limit]
    refine (left c fits).bind fun l => ?_
    cases l with
    | returning v => exact WithinLimit.refl _
    | normal l =>
      refine (right c fits).bind fun r => ?_
      cases r <;> exact WithinLimit.refl _
  · -- a conditional spends nothing itself: its parts run under the same budgets
    intro budget env test thenBlock elseBlock condition thenPart elsePart b' room
    cases elseBlock with
    | some stmts =>
      rw [expr, expr]
      refine (condition b' room).bind fun c => ?_
      cases c with
      | returning v => exact WithinLimit.refl _
      | normal c =>
        simp only [note_limit]
        refine WithinLimit.bind_right _ fun _ => ?_
        split
        · exact thenPart b' room
        · exact elsePart b' room
    | none =>
      rw [expr, expr]
      refine (condition b' room).bind fun c => ?_
      cases c with
      | returning v => exact WithinLimit.refl _
      | normal c =>
        simp only [note_limit]
        refine WithinLimit.bind_right _ fun _ => ?_
        split
        · exact thenPart b' room
        · exact WithinLimit.refl _
  · intro budget env params body b' _
    rw [expr, expr]
    exact WithinLimit.refl _
  · intro env callee args b' _
    rw [expr]
    exact WithinLimit.stop _ _
  · intro env callee args b function arguments running b' room
    obtain ⟨c, rfl, fits⟩ := exists_succ_of_succ_le room
    simp only [expr, degrade_limit]
    refine (function c fits).bind fun f => ?_
    cases f with
    | returning v => exact WithinLimit.refl _
    | normal f =>
      cases f
      case closure params body outer =>
        refine (arguments c fits).bind fun vs => ?_
        cases vs with
        | returning v => exact WithinLimit.refl _
        | normal vals =>
          refine WithinLimit.bind_right _ fun frame => ?_
          exact (running body frame c fits).bind fun _ => WithinLimit.refl _
      -- a call of anything but a closure is a fault, the same under every limit
      all_goals exact WithinLimit.refl _
  · intro budget env b' _
    rw [exprs, exprs]
    exact WithinLimit.refl _
  · intro budget env e rest first others b' room
    rw [exprs, exprs]
    refine (first b' room).bind fun c => ?_
    cases c with
    | returning v => exact WithinLimit.refl _
    | normal v =>
      refine (others b' room).bind fun c => ?_
      cases c <;> exact WithinLimit.refl _
  · intro env stmts b' _
    rw [block]
    exact WithinLimit.stop _ _
  · intro env stmts b run b' room
    obtain ⟨c, rfl, fits⟩ := exists_succ_of_succ_le room
    rw [block, block]
    exact run c fits
  · intro budget env last b' _
    rw [stmtsFrom, stmtsFrom]
    exact WithinLimit.refl _
  · intro budget env s rest last first others b' room
    rw [stmtsFrom, stmtsFrom]
    refine (first b' room).bind fun c => ?_
    cases c with
    | returning v => exact WithinLimit.refl _
    | normal v => exact others v b' room
  · intro budget env name e value b' room
    rw [stmt, stmt]
    refine (value b' room).bind fun c => ?_
    cases c <;> exact WithinLimit.refl _
  · intro budget env b' _
    rw [stmt, stmt]
    exact WithinLimit.refl _
  · intro budget env e value b' room
    rw [stmt, stmt]
    refine (value b' room).bind fun c => ?_
    cases c <;> exact WithinLimit.refl _
  · intro budget env e value b' room
    rw [stmt, stmt]
    exact value b' room

theorem program_within {cfg : Config} {d : Nat} (raised : cfg.maxDepth ≤ d) (env : FrameId)
    (ss : List Stmt) (last : Value) :
    WithinLimit (program cfg env ss last) (program { cfg with maxDepth := d } env ss last) := by
  induction ss generalizing last with
  | nil => exact WithinLimit.refl _
  | cons s rest ih =>
    simp only [program, note_limit]
    refine WithinLimit.bind_right _ fun _ => ?_
    refine ((budget_within cfg d).2.2.2.2 _ _ _ _ raised).bind fun c => ?_
    cases c with
    | returning v => exact WithinLimit.refl _
    | normal v => exact WithinLimit.bind_right _ fun _ => ih v

end Eval

/-- Raising the effective nesting limit of an interpreter changes no answer that did not stop at
the limit: started on the same machine, in either mode and with tracing on or off, a run under the
smaller limit either fails with a stack-limit error, or gives the same value or the same error as
the run under the larger limit and leaves the same machine, frames and trace alike. -/
theorem eval_within_larger_limit (strict trace : Bool) (d d' : Int) (machine : Machine)
    (p : Program) (raised : Config.depthOf d ≤ Config.depthOf d') :
    let small : Interpreter := { Interpreter.create strict d trace with machine }
    let large : Interpreter := { Interpreter.create strict d' trace with machine }
    (∃ e, (small.eval p).1 = .error e ∧ e.kind = .stackLimit) ∨
      ((small.eval p).1 = (large.eval p).1 ∧
        (small.eval p).2.machine = (large.eval p).2.machine) := by
  let cfg : Config := { strict, maxDepth := Config.depthOf d, trace }
  have within := @Eval.program_within cfg _ raised Interpreter.global p.stmts .null machine
  simp only [Interpreter.eval, Interpreter.exec, Interpreter.create]
  rcases within with ⟨e, m, stopped, atLimit⟩ | same
  · left
    refine ⟨e, ?_, atLimit⟩
    rw [stopped]
  · right
    rw [← same]
    cases (Eval.program cfg Interpreter.global p.stmts .null).run machine <;> exact ⟨rfl, rfl⟩

/-- A request of 100 is below the default that a request of 0 stands for, so a strict run of `-1`
under it is within the run under the default. -/
theorem eval_within_default_limit :
    Config.depthOf 100 ≤ Config.depthOf 0 ∧
      let p : Program := ⟨[.expr (.unop .neg (.int 1))]⟩
      let small : Interpreter := { Interpreter.create true 100 false with machine := {} }
      let large : Interpreter := { Interpreter.create true 0 false with machine := {} }
      ((∃ e, (small.eval p).1 = .error e ∧ e.kind = .stackLimit) ∨
        ((small.eval p).1 = (large.eval p).1 ∧
          (small.eval p).2.machine = (large.eval p).2.machine)) :=
  ⟨by decide, eval_within_larger_limit true false 100 0 {} _ (by decide)⟩

/-- A request for a limit of 0 stands for the default limit of 10000, so raising it to 1 lowers the
limit: `-(-1)` nests two operations, which the default allows and a limit of 1 does not. The run
under the request 0 gives 1, neither a stack-limit error nor the answer under the request 1. -/
theorem raising_zero_request_lowers_limit :
    let p : Program := ⟨[.expr (.unop .neg (.unop .neg (.int 1)))]⟩
    let small := Interpreter.create false 0 false
    let large := Interpreter.create false 1 false
    (0 : Int) ≤ 1 ∧
      ¬ ((∃ e, (small.eval p).1 = .error e ∧ e.kind = .stackLimit) ∨
        (small.eval p).1 = (large.eval p).1) := by
  intro p small large
  have value : (small.eval p).1 = .ok (.int 1) := by cbv
  have stopped : (large.eval p).1 = .error (.stackLimit 1) := by cbv
  refine ⟨by decide, ?_⟩
  rw [value, stopped]
  simp

end Monkey
