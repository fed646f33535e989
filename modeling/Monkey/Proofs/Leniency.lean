import Monkey.Interpreter

/-!
Strict and lenient evaluation differ in one place only: a forgivable fault (an unbound name, an
operator applied to values of the wrong kinds, a call of something that is not a function) stops
a strict run and gives null in a lenient one. Everything else, fatal faults included, is shared.

`Eval.Refines` says what a lenient answer may be given the strict one, and
`Eval.LenientRefines` lifts it to evaluation steps, where it is closed under `bind`. Every
evaluation function refines its strict twin (`Eval.evaluation_refines`, by induction along the
evaluator's own recursion), and so does a whole program: `eval_lenient_refines_strict`.
-/

set_option autoImplicit false
set_option relaxedAutoImplicit false

namespace Monkey

namespace Eval

/-- What a lenient run may answer where a strict run answered: the same answer, unless the
strict run stopped at a fault that lenient mode forgives; and never a forgivable fault itself. -/
structure Refines {α : Type} (strict lenient : EStateM.Result EvalError Machine α) : Prop where
  /-- The lenient run stops only at fatal faults. -/
  fatalOnly : ∀ e m, lenient = .error e m → e.fatal
  /-- It answers as the strict run did, unless that stopped at a forgivable fault. -/
  agrees : match strict with
    | .ok a m => lenient = .ok a m
    | .error e m => e.fatal → lenient = .error e m

theorem Refines.same_ok {α : Type} (a : α) (m : Machine) : Refines (.ok a m) (.ok a m) := by
  refine ⟨?_, rfl⟩
  intro e m' h
  cases h

theorem Refines.same_fatal {α : Type} {e : EvalError} (fatal : e.fatal) (m : Machine) :
    Refines (.error e m : EStateM.Result EvalError Machine α) (.error e m) := by
  refine ⟨?_, fun _ => rfl⟩
  intro e' m' h
  cases h
  exact fatal

theorem Refines.forgiven {α : Type} {e : EvalError} (forgivable : e.fatal = false) (m : Machine)
    (lenient : EStateM.Result EvalError Machine α)
    (noFault : ∀ e' m', lenient = .error e' m' → e'.fatal) : Refines (.error e m) lenient :=
  ⟨noFault, fun fatal => by rw [forgivable] at fatal; cases fatal⟩

/-- A lenient evaluation refines a strict one when it does so from every machine. -/
def LenientRefines {α : Type} (strict lenient : EvalM α) : Prop :=
  ∀ m, Refines (strict.run m) (lenient.run m)

namespace LenientRefines

variable {α β : Type}

theorem pure (a : α) : LenientRefines (Pure.pure a : EvalM α) (Pure.pure a) :=
  fun m => Refines.same_ok a m

theorem throw_fatal {e : EvalError} (fatal : e.fatal) :
    LenientRefines (throw e : EvalM α) (throw e) :=
  fun m => Refines.same_fatal fatal m

theorem bind {xs xl : EvalM α} {ks kl : α → EvalM β} (first : LenientRefines xs xl)
    (rest : ∀ a, LenientRefines (ks a) (kl a)) : LenientRefines (xs >>= ks) (xl >>= kl) := by
  intro m
  obtain ⟨fatalOnly, agree⟩ := first m
  rw [EStateM.run_bind, EStateM.run_bind]
  cases strictRun : xs.run m with
  | ok a m' =>
    rw [strictRun] at agree
    simp only at agree
    rw [agree]
    exact rest a m'
  | error e m' =>
    rw [strictRun] at agree
    simp only at agree
    cases lenientRun : xl.run m with
    | ok a m'' =>
      refine ⟨(rest a m'').fatalOnly, fun fatal => ?_⟩
      rw [agree fatal] at lenientRun
      cases lenientRun
    | error e' m'' =>
      refine ⟨fun e₂ m₂ h => ?_, fun fatal => ?_⟩
      · cases h
        exact fatalOnly e' m'' lenientRun
      · rw [agree fatal] at lenientRun
        cases lenientRun
        rfl

theorem same {x : EvalM α} (total : ∀ m, ∃ a m', x.run m = .ok a m') : LenientRefines x x := by
  intro m
  obtain ⟨a, m', ran⟩ := total m
  rw [ran]
  exact Refines.same_ok a m'

end LenientRefines

variable (cfg : Config)

theorem note_refines (t : Trace) :
    LenientRefines (note { cfg with strict := true } t) (note { cfg with strict := false } t) := by
  apply LenientRefines.same
  intro m
  unfold note
  split <;> exact ⟨_, _, rfl⟩

theorem degrade_refines (e : EvalError) :
    LenientRefines (degrade { cfg with strict := true } e)
      (degrade { cfg with strict := false } e) := by
  intro m
  have strictRun : (degrade { cfg with strict := true } e).run m = .error e m := rfl
  rw [strictRun]
  cases fatal : e.fatal with
  | true =>
    have lenientRun : (degrade { cfg with strict := false } e).run m = .error e m := by
      simp [degrade, fatal]; rfl
    rw [lenientRun]
    exact Refines.same_fatal fatal m
  | false =>
    refine Refines.forgiven fatal m _ fun e' m' h => ?_
    simp [degrade, fatal, note] at h
    split at h <;> cases h

theorem unary_refines (op : UnOp) (v : Value) :
    LenientRefines (unary { cfg with strict := true } op v)
      (unary { cfg with strict := false } op v) := by
  unfold unary
  split
  · exact LenientRefines.pure _
  · exact LenientRefines.pure _
  · exact degrade_refines cfg _

theorem intBinary_fatal {op : BinOp} {a b : Int32} {e : EvalError}
    (h : intBinary op a b = .error e) : e.fatal := by
  cases op <;> simp only [intBinary, reduceCtorEq] at h
  split at h
  · cases h
    rfl
  · cases h

theorem binary_refines (op : BinOp) (l r : Value) :
    LenientRefines (binary { cfg with strict := true } op l r)
      (binary { cfg with strict := false } op l r) := by
  unfold binary
  split
  · split
    · exact LenientRefines.pure _
    · rename_i e fails
      exact LenientRefines.throw_fatal (intBinary_fatal fails)
  · split
    · exact LenientRefines.pure _
    · exact LenientRefines.pure _
    · exact degrade_refines cfg _
  · exact degrade_refines cfg _

theorem enterFrame_refines (outer : FrameId) (params : List String) (args : List Value) :
    LenientRefines (enterFrame outer params args) (enterFrame outer params args) :=
  LenientRefines.same fun _ => ⟨_, _, rfl⟩

theorem get_refines : LenientRefines (get : EvalM Machine) get :=
  LenientRefines.same fun _ => ⟨_, _, rfl⟩

theorem modify_refines (f : Machine → Machine) :
    LenientRefines (modify f : EvalM PUnit) (modify f) :=
  LenientRefines.same fun _ => ⟨_, _, rfl⟩

theorem evaluation_refines :
    (∀ b env e, LenientRefines (expr { cfg with strict := true } b env e)
      (expr { cfg with strict := false } b env e)) ∧
    (∀ b env es, LenientRefines (exprs { cfg with strict := true } b env es)
      (exprs { cfg with strict := false } b env es)) ∧
    (∀ b env ss, LenientRefines (block { cfg with strict := true } b env ss)
      (block { cfg with strict := false } b env ss)) ∧
    (∀ b env ss last, LenientRefines (stmtsFrom { cfg with strict := true } b env ss last)
      (stmtsFrom { cfg with strict := false } b env ss last)) ∧
    (∀ b env s, LenientRefines (stmt { cfg with strict := true } b env s)
      (stmt { cfg with strict := false } b env s)) := by
  apply expr.mutual_induct
  · -- a name: looked up, or a fault when unbound
    intro budget env name
    simp only [expr]
    refine get_refines.bind fun m => ?_
    split
    · exact LenientRefines.pure _
    · exact (degrade_refines cfg _).bind fun _ => LenientRefines.pure _
  · intro budget env n
    rw [expr, expr]
    exact LenientRefines.pure _
  · intro budget env b
    rw [expr, expr]
    exact LenientRefines.pure _
  · intro env op arg
    rw [expr, expr]
    exact LenientRefines.throw_fatal rfl
  · intro env op arg b operand
    simp only [expr]
    refine operand.bind fun c => ?_
    cases c with
    | returning v => exact LenientRefines.pure _
    | normal v => exact (unary_refines cfg op v).bind fun _ => LenientRefines.pure _
  · intro env op lhs rhs
    rw [expr, expr]
    exact LenientRefines.throw_fatal rfl
  · intro env op lhs rhs b left right
    simp only [expr]
    refine left.bind fun c => ?_
    cases c with
    | returning v => exact LenientRefines.pure _
    | normal l =>
      refine right.bind fun c => ?_
      cases c with
      | returning v => exact LenientRefines.pure _
      | normal r => exact (binary_refines cfg op l r).bind fun _ => LenientRefines.pure _
  · -- a conditional: the two shapes of its `else` part unfold separately
    intro budget env test thenBlock elseBlock condition thenPart elsePart
    cases elseBlock with
    | some stmts =>
      rw [expr, expr]
      refine condition.bind fun c => ?_
      cases c with
      | returning v => exact LenientRefines.pure _
      | normal c =>
        refine (note_refines cfg _).bind fun _ => ?_
        split
        · exact thenPart
        · exact elsePart
    | none =>
      rw [expr, expr]
      refine condition.bind fun c => ?_
      cases c with
      | returning v => exact LenientRefines.pure _
      | normal c =>
        refine (note_refines cfg _).bind fun _ => ?_
        split
        · exact thenPart
        · exact LenientRefines.pure _
  · intro budget env params body
    rw [expr, expr]
    exact LenientRefines.pure _
  · intro env callee args
    rw [expr, expr]
    exact LenientRefines.throw_fatal rfl
  · intro env callee args b function arguments running
    simp only [expr]
    refine function.bind fun c => ?_
    cases c with
    | returning v => exact LenientRefines.pure _
    | normal v =>
      cases v
      case closure params body outer =>
        refine arguments.bind fun c => ?_
        cases c with
        | returning v => exact LenientRefines.pure _
        | normal vals =>
          refine (enterFrame_refines outer params vals).bind fun frame => ?_
          exact (running body frame).bind fun _ => LenientRefines.pure _
      -- a call of anything but a closure is a fault
      all_goals exact (degrade_refines cfg _).bind fun _ => LenientRefines.pure _
  · intro budget env
    rw [exprs, exprs]
    exact LenientRefines.pure _
  · intro budget env e rest first others
    rw [exprs, exprs]
    refine first.bind fun c => ?_
    cases c with
    | returning v => exact LenientRefines.pure _
    | normal v =>
      refine others.bind fun c => ?_
      cases c <;> exact LenientRefines.pure _
  · intro env stmts
    rw [block, block]
    exact LenientRefines.throw_fatal rfl
  · intro env stmts b run
    rw [block, block]
    exact run
  · intro budget env last
    rw [stmtsFrom, stmtsFrom]
    exact LenientRefines.pure _
  · intro budget env s rest last first others
    rw [stmtsFrom, stmtsFrom]
    refine first.bind fun c => ?_
    cases c with
    | returning v => exact LenientRefines.pure _
    | normal v => exact others v
  · intro budget env name e value
    rw [stmt, stmt]
    refine value.bind fun c => ?_
    cases c with
    | returning v => exact LenientRefines.pure _
    | normal v => exact (modify_refines _).bind fun _ => LenientRefines.pure _
  · intro budget env
    rw [stmt, stmt]
    exact LenientRefines.pure _
  · intro budget env e value
    rw [stmt, stmt]
    refine value.bind fun c => ?_
    cases c <;> exact LenientRefines.pure _
  · intro budget env e value
    rw [stmt, stmt]
    exact value

theorem program_refines (env : FrameId) (stmts : List Stmt) (last : Value) :
    LenientRefines (program { cfg with strict := true } env stmts last)
      (program { cfg with strict := false } env stmts last) := by
  induction stmts generalizing last with
  | nil => exact LenientRefines.pure _
  | cons s rest ih =>
    simp only [program]
    refine (note_refines cfg _).bind fun _ => ?_
    refine ((evaluation_refines cfg).2.2.2.2 _ _ _).bind fun c => ?_
    cases c with
    | returning v => exact LenientRefines.pure _
    | normal v => exact (note_refines cfg _).bind fun _ => ih v

end Eval

/-- Strict and lenient interpreters started on the same machine run a program alike: the lenient
run never stops at a forgivable fault; where the strict run gives a value, the lenient run gives
the same value and leaves the same machine; where the strict run stops at a fatal fault, the
lenient run stops at the same fault and leaves the same machine. -/
theorem eval_lenient_refines_strict (cfg : Config) (machine : Machine) (p : Program) :
    let strict : Interpreter := { config := { cfg with strict := true }, machine }
    let lenient : Interpreter := { config := { cfg with strict := false }, machine }
    (∀ e, (lenient.eval p).1 = .error e → e.fatal) ∧
    (∀ v, (strict.eval p).1 = .ok v →
      (lenient.eval p).1 = .ok v ∧ (lenient.eval p).2.machine = (strict.eval p).2.machine) ∧
    (∀ e, (strict.eval p).1 = .error e → e.fatal →
      (lenient.eval p).1 = .error e ∧ (lenient.eval p).2.machine = (strict.eval p).2.machine) := by
  obtain ⟨fatalOnly, agrees⟩ := Eval.program_refines cfg Interpreter.global p.stmts .null machine
  simp only [Interpreter.eval, Interpreter.exec]
  generalize (Eval.program { cfg with strict := true } Interpreter.global p.stmts .null).run machine
    = strictRun at agrees ⊢
  generalize (Eval.program { cfg with strict := false } Interpreter.global p.stmts .null).run
    machine = lenientRun at fatalOnly agrees ⊢
  refine ⟨fun e failed => ?_, fun v succeeded => ?_, fun e failed fatal => ?_⟩
  · cases lenientRun with
    | ok a m => cases failed
    | error e' m =>
      cases failed
      exact fatalOnly e m rfl
  · cases strictRun with
    | ok a m =>
      cases succeeded
      rw [agrees]
      exact ⟨rfl, rfl⟩
    | error e m => cases succeeded
  · cases strictRun with
    | ok a m => cases failed
    | error e' m =>
      cases failed
      rw [agrees fatal]
      exact ⟨rfl, rfl⟩

end Monkey
