import Monkey.Interpreter
import Mathlib

/-!
# Where evaluation writes

A binding is made in one frame only, the frame its `let` runs in. Blocks run in the frame around
them, and a call runs its body in a frame of its own, added to the store, extending the closure's
frame and holding the parameters. So evaluating a node in a frame leaves every other frame that
existed before exactly as it was, whether the evaluation ends with a value or with an error: a
call changes neither the frame its closure was made in nor the frame it was called from.

`Store.WritesOnly env s s'` says that `s'` keeps every frame of `s`, unchanged but for the one at
`env`; frames added since are free. `Eval.Confined env x` says it of every run of a step, and is
closed under `bind`. Adding a frame and running confined to it is confined to any frame, since no
frame older than the new one is touched (`Eval.Confined.enterFrame_bind`). Every evaluation function
is confined to the frame it runs in (`Eval.evaluation_confined`, by induction along the evaluator's
recursion), and so are the interpreter's entry points: `evaluation_writes_only_its_frame`.
-/

set_option autoImplicit false
set_option relaxedAutoImplicit false

namespace Monkey

namespace Store

/-- `s'` has every frame of `s`, and each of them but the one at `env` unchanged. -/
structure WritesOnly (env : FrameId) (s s' : Store) : Prop where
  grows : s.frames.size ≤ s'.frames.size
  keeps : ∀ id, id < s.frames.size → id ≠ env → s'.frames[id]? = s.frames[id]?

namespace WritesOnly

variable {env : FrameId} {s₁ s₂ s₃ : Store}

theorem refl (env : FrameId) (s : Store) : WritesOnly env s s :=
  ⟨Nat.le_refl _, fun _ _ _ => rfl⟩

theorem trans (first : WritesOnly env s₁ s₂) (second : WritesOnly env s₂ s₃) :
    WritesOnly env s₁ s₃ := by
  refine ⟨Nat.le_trans first.grows second.grows, fun id old other => ?_⟩
  have stillOld : id < s₂.frames.size := Nat.lt_of_lt_of_le old first.grows
  rw [second.keeps id stillOld other, first.keeps id old other]

theorem of_fresh {n : FrameId} (writes : WritesOnly n s₁ s₂) (fresh : s₁.frames.size ≤ n)
    (env : FrameId) : WritesOnly env s₁ s₂ :=
  ⟨writes.grows, fun id old _ => writes.keeps id old (by omega)⟩

theorem bindings_eq (writes : WritesOnly env s₁ s₂) {id : FrameId} (old : id < s₁.frames.size)
    (other : id ≠ env) : s₂.bindings id = s₁.bindings id := by
  simp only [bindings, writes.keeps id old other]

end WritesOnly

theorem define_writesOnly (s : Store) (id : FrameId) (name : String) (v : Value) :
    WritesOnly id s (s.define id name v) := by
  refine ⟨by simp [define], fun j _ other => ?_⟩
  simp only [define, Array.getElem?_modify]
  rw [if_neg (Ne.symm other)]

theorem push_writesOnly (s : Store) (outer : Option FrameId) (env : FrameId) :
    WritesOnly env s (s.push outer).2 := by
  refine ⟨by simp [push], fun j old _ => ?_⟩
  simp only [push, Array.getElem?_push]
  rw [if_neg (by omega)]

theorem foldl_define_writesOnly (id : FrameId) (binds : List (String × Value)) (s : Store) :
    WritesOnly id s (binds.foldl (fun s (p, v) => s.define id p v) s) := by
  induction binds generalizing s with
  | nil => exact WritesOnly.refl id s
  | cons pv rest ih =>
    rw [List.foldl_cons]
    exact (define_writesOnly s id pv.1 pv.2).trans (ih _)

end Store

namespace Eval

/-- The machine a run ends with, whether it returns or fails. -/
def after {α : Type} : EStateM.Result EvalError Machine α → Machine
  | .ok _ m => m
  | .error _ m => m

/-- Every run of the step, from any machine, writes no frame it started with but the one at
`env`. -/
def Confined {α : Type} (env : FrameId) (x : EvalM α) : Prop :=
  ∀ m, Store.WritesOnly env m.store (after (x.run m)).store

namespace Confined

variable {α β : Type} {env : FrameId}

theorem pure (a : α) : Confined env (Pure.pure a : EvalM α) :=
  fun m => Store.WritesOnly.refl env m.store

theorem throw (e : EvalError) : Confined env (MonadExcept.throw e : EvalM α) :=
  fun m => Store.WritesOnly.refl env m.store

theorem get : Confined env (MonadState.get : EvalM Machine) :=
  fun m => Store.WritesOnly.refl env m.store

theorem of_modify (f : Machine → Machine) (writes : ∀ m, Store.WritesOnly env m.store (f m).store) :
    Confined env (modify f : EvalM PUnit) :=
  fun m => writes m

theorem bind {x : EvalM α} {k : α → EvalM β} (first : Confined env x)
    (rest : ∀ a, Confined env (k a)) : Confined env (x >>= k) := by
  intro m
  have writes := first m
  rw [EStateM.run_bind]
  cases run : x.run m with
  | ok a m' =>
    rw [run] at writes
    exact writes.trans (rest a m')
  | error e m' =>
    rw [run] at writes
    exact writes

theorem enterFrame_bind {outer : FrameId} {params : List String} {args : List Value}
    {k : FrameId → EvalM β} (body : ∀ frame, Confined frame (k frame)) :
    Confined env (enterFrame outer params args >>= k) := by
  intro m
  let frame := m.store.frames.size
  let store := (params.zip args).foldl (fun s (p, v) => s.define frame p v)
    (m.store.push (some outer)).2
  let entered : Machine := { m with store }
  have run : (enterFrame outer params args).run m = .ok frame entered := rfl
  rw [EStateM.run_bind, run]
  have added : Store.WritesOnly frame m.store entered.store :=
    (Store.push_writesOnly m.store (some outer) frame).trans
      (Store.foldl_define_writesOnly frame (params.zip args) _)
  -- the new frame sits past every old one, so writes to it and to later frames miss them all
  exact (added.trans (body frame entered)).of_fresh (Nat.le_refl _) env

variable (cfg : Config)

theorem note (t : Trace) : Confined env (Eval.note cfg t) := by
  unfold Eval.note
  split
  · exact of_modify _ fun m => Store.WritesOnly.refl env m.store
  · exact pure _

theorem degrade (e : EvalError) : Confined env (Eval.degrade cfg e) := by
  unfold Eval.degrade
  split
  · exact throw e
  · exact (note cfg _).bind fun _ => pure _

theorem unary (op : UnOp) (v : Value) : Confined env (Eval.unary cfg op v) := by
  unfold Eval.unary
  split
  · exact pure _
  · exact pure _
  · exact degrade cfg _

theorem binary (op : BinOp) (l r : Value) : Confined env (Eval.binary cfg op l r) := by
  unfold Eval.binary
  split
  · split
    · exact pure _
    · exact throw _
  · split
    · exact pure _
    · exact pure _
    · exact degrade cfg _
  · exact degrade cfg _

end Confined

variable (cfg : Config)

theorem evaluation_confined :
    (∀ b env e, Confined env (expr cfg b env e)) ∧
    (∀ b env es, Confined env (exprs cfg b env es)) ∧
    (∀ b env ss, Confined env (block cfg b env ss)) ∧
    (∀ b env ss last, Confined env (stmtsFrom cfg b env ss last)) ∧
    (∀ b env s, Confined env (stmt cfg b env s)) := by
  apply expr.mutual_induct
  · intro budget env name
    simp only [expr]
    refine Confined.get.bind fun m => ?_
    split
    · exact Confined.pure _
    · exact (Confined.degrade cfg _).bind fun _ => Confined.pure _
  · intro budget env n
    rw [expr]
    exact Confined.pure _
  · intro budget env b
    rw [expr]
    exact Confined.pure _
  · intro env op arg
    rw [expr]
    exact Confined.throw _
  · intro env op arg b operand
    simp only [expr]
    refine operand.bind fun c => ?_
    cases c with
    | returning v => exact Confined.pure _
    | normal v => exact (Confined.unary cfg op v).bind fun _ => Confined.pure _
  · intro env op lhs rhs
    rw [expr]
    exact Confined.throw _
  · intro env op lhs rhs b left right
    simp only [expr]
    refine left.bind fun c => ?_
    cases c with
    | returning v => exact Confined.pure _
    | normal l =>
      refine right.bind fun c => ?_
      cases c with
      | returning v => exact Confined.pure _
      | normal r => exact (Confined.binary cfg op l r).bind fun _ => Confined.pure _
  · -- the blocks of a conditional run in the conditional's own frame
    intro budget env test thenBlock elseBlock condition thenPart elsePart
    cases elseBlock with
    | some stmts =>
      rw [expr]
      refine condition.bind fun c => ?_
      cases c with
      | returning v => exact Confined.pure _
      | normal c =>
        refine (Confined.note cfg _).bind fun _ => ?_
        split
        · exact thenPart
        · exact elsePart
    | none =>
      rw [expr]
      refine condition.bind fun c => ?_
      cases c with
      | returning v => exact Confined.pure _
      | normal c =>
        refine (Confined.note cfg _).bind fun _ => ?_
        split
        · exact thenPart
        · exact Confined.pure _
  · intro budget env params body
    rw [expr]
    exact Confined.pure _
  · intro env callee args
    rw [expr]
    exact Confined.throw _
  · -- the callee and the arguments run in the caller's frame, the body in a frame of its own
    intro env callee args b function arguments running
    simp only [expr]
    refine function.bind fun c => ?_
    cases c with
    | returning v => exact Confined.pure _
    | normal v =>
      cases v
      case closure params body outer =>
        refine arguments.bind fun c => ?_
        cases c with
        | returning v => exact Confined.pure _
        | normal vals =>
          exact Confined.enterFrame_bind fun frame =>
            (running body frame).bind fun _ => Confined.pure _
      all_goals exact (Confined.degrade cfg _).bind fun _ => Confined.pure _
  · intro budget env
    rw [exprs]
    exact Confined.pure _
  · intro budget env e rest first others
    rw [exprs]
    refine first.bind fun c => ?_
    cases c with
    | returning v => exact Confined.pure _
    | normal v =>
      refine others.bind fun c => ?_
      cases c <;> exact Confined.pure _
  · intro env stmts
    rw [block]
    exact Confined.throw _
  · intro env stmts b run
    rw [block]
    exact run
  · intro budget env last
    rw [stmtsFrom]
    exact Confined.pure _
  · intro budget env s rest last first others
    rw [stmtsFrom]
    refine first.bind fun c => ?_
    cases c with
    | returning v => exact Confined.pure _
    | normal v => exact others v
  · -- a binding writes the frame the statement runs in
    intro budget env name e value
    rw [stmt]
    refine value.bind fun c => ?_
    cases c with
    | returning v => exact Confined.pure _
    | normal v =>
      exact (Confined.of_modify _ fun m => Store.define_writesOnly m.store env name v).bind
        fun _ => Confined.pure _
  · intro budget env
    rw [stmt]
    exact Confined.pure _
  · intro budget env e value
    rw [stmt]
    refine value.bind fun c => ?_
    cases c <;> exact Confined.pure _
  · intro budget env e value
    rw [stmt]
    exact value

theorem program_confined (env : FrameId) (ss : List Stmt) (last : Value) :
    Confined env (program cfg env ss last) := by
  induction ss generalizing last with
  | nil => exact Confined.pure _
  | cons s rest ih =>
    simp only [program]
    refine (Confined.note cfg _).bind fun _ => ?_
    refine ((evaluation_confined cfg).2.2.2.2 _ _ _).bind fun c => ?_
    cases c with
    | returning v => exact Confined.pure _
    | normal v => exact (Confined.note cfg _).bind fun _ => ih v

end Eval

namespace Interpreter

theorem exec_machine {α : Type} (ip : Interpreter) (x : EvalM α) :
    (ip.exec x).2.machine = Eval.after (x.run ip.machine) := by
  unfold exec
  split <;> rename_i run <;> rw [run] <;> rfl

theorem exec_bindings {α : Type} {env : FrameId} {x : EvalM α} (confined : Eval.Confined env x)
    (ip : Interpreter) {id : FrameId} (old : id < ip.machine.store.frames.size) (other : id ≠ env) :
    (ip.exec x).2.bindings id = ip.bindings id := by
  simp only [bindings, exec_machine]
  exact (confined ip.machine).bindings_eq old other

theorem evalIn_confined (ip : Interpreter) (node : Node) (env : FrameId) :
    ∃ α, ∃ x : EvalM α, Eval.Confined env x ∧ ∀ id,
      (ip.evalIn node env).2.bindings id = (ip.exec x).2.bindings id := by
  cases node with
  | program p => exact ⟨_, _, Eval.program_confined ip.config env p.stmts .null, fun _ => rfl⟩
  | block stmts =>
    exact ⟨_, _, ((Eval.evaluation_confined ip.config).2.2.1 _ env stmts).bind
      fun _ => Eval.Confined.pure _, fun _ => rfl⟩
  | stmt s =>
    exact ⟨_, _, ((Eval.evaluation_confined ip.config).2.2.2.2 _ env s).bind
      fun _ => Eval.Confined.pure _, fun _ => rfl⟩
  | expr e =>
    exact ⟨_, _, ((Eval.evaluation_confined ip.config).1 _ env e).bind
      fun _ => Eval.Confined.pure _, fun _ => rfl⟩
  | other what =>
    exact ⟨Value, throw (.unsupported ("cannot evaluate " ++ what)), Eval.Confined.throw _,
      fun _ => rfl⟩

end Interpreter

/-- Evaluating a node in a frame leaves every other frame that existed before with exactly the
bindings it had, whether the evaluation succeeds or fails, in both modes: a node evaluated in a
given frame, and a program or a source evaluated in the global frame. In particular, once a call
has its arguments, running the closure's body in the frame added for it, with the parameters bound
there, changes no frame there was: neither the frame the closure was made in, nor the caller's. -/
theorem evaluation_writes_only_its_frame (ip : Interpreter) :
    (∀ node env id, id < ip.machine.store.frames.size → id ≠ env →
      (ip.evalIn node env).2.bindings id = ip.bindings id) ∧
    (∀ p id, id < ip.machine.store.frames.size → id ≠ Interpreter.global →
      (ip.eval p).2.bindings id = ip.bindings id) ∧
    (∀ src id, id < ip.machine.store.frames.size → id ≠ Interpreter.global →
      (ip.evalSource src).2.bindings id = ip.bindings id) ∧
    (∀ b outer params vals body id, id < ip.machine.store.frames.size →
      (ip.exec (Eval.enterFrame outer params vals >>= fun frame =>
        Eval.block ip.config b frame body)).2.bindings id = ip.bindings id) := by
  have program : ∀ p id, id < ip.machine.store.frames.size → id ≠ Interpreter.global →
      (ip.eval p).2.bindings id = ip.bindings id := fun p _ old other =>
    ip.exec_bindings (Eval.program_confined ip.config _ p.stmts .null) old other
  refine ⟨fun node env id old other => ?_, program, fun src id old other => ?_,
    fun b outer params vals body id old => ?_⟩
  · obtain ⟨_, x, confined, same⟩ := ip.evalIn_confined node env
    rw [same]
    exact ip.exec_bindings confined old other
  · unfold Interpreter.evalSource
    split
    · rfl
    · exact program _ id old other
  · -- the body's frame is the store's next place, so no frame there was is the one written
    have confined : Eval.Confined ip.machine.store.frames.size
        (Eval.enterFrame outer params vals >>= fun frame => Eval.block ip.config b frame body) :=
      Eval.Confined.enterFrame_bind fun frame =>
        (Eval.evaluation_confined ip.config).2.2.1 b frame body
    exact ip.exec_bindings confined old (Nat.ne_of_lt old)

/-- A binding made in a frame extending the global frame leaves the global frame as it was. -/
theorem binding_in_inner_frame_spares_global :
    let ip := ((Interpreter.create false 0 false).newFrame (some Interpreter.global)).2
    0 < ip.machine.store.frames.size ∧ 0 ≠ 1 ∧
      (ip.evalIn (.stmt (.bind "x" (.int 1))) 1).2.bindings 0 = ip.bindings 0 := by
  intro ip
  have old : 0 < ip.machine.store.frames.size := by decide
  exact ⟨old, by decide, (evaluation_writes_only_its_frame ip).1 _ _ _ old (by decide)⟩

end Monkey
