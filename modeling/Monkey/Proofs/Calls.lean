import Monkey.Proofs.Frames

/-!
# What a call binds

A call evaluates the callee, then every argument, left to right, in the caller's frame, and runs
the body in a frame added for it. That frame extends the frame the closure was made in and binds
the parameters to the arguments pairwise, up to the shorter list, a later parameter of the same
name winning: arguments past the last parameter are evaluated and dropped, and parameters past the
last argument stay unbound (`Eval.expr_call_closure`, `Eval.enterFrame_frame`).

`Store.Evolves s t` says that `t` comes from `s` by binding names and adding frames. Every
evaluation changes the store so (`Eval.evaluation_evolves`), so no frame ever changes the frame it
extends (`Store.Evolves.outer_eq`).
-/

set_option autoImplicit false
set_option relaxedAutoImplicit false

namespace Monkey

theorem lookup_cons_binding (x n : String) (w : Value) (rest : List (String × Value)) :
    ((n, w) :: rest).lookup x = if x = n then some w else rest.lookup x := by
  by_cases same : x = n
  · subst same
    simp
  · have differ : (x == n) = false := by simpa using same
    simp [List.lookup, differ, same]

@[simp] theorem lookup_insertBinding (name x : String) (v : Value) (bs : List (String × Value)) :
    (insertBinding name v bs).lookup x = if x = name then some v else bs.lookup x := by
  induction bs with
  | nil => simp [insertBinding, lookup_cons_binding]
  | cons b rest ih =>
    obtain ⟨n, w⟩ := b
    by_cases before : name < n
    · simp [insertBinding, lookup_cons_binding, before]
    · by_cases replaced : name = n
      · subst replaced
        by_cases same : x = name <;> simp [insertBinding, lookup_cons_binding, same]
      · -- the binding goes further in, past the binding of `n`
        by_cases here : x = n
        · subst here
          simp [insertBinding, before, replaced, Ne.symm replaced]
        · simp [insertBinding, lookup_cons_binding, before, replaced, here, ih]

theorem lookup_foldl_insertBinding (pairs : List (String × Value)) (bs : List (String × Value))
    (x : String) :
    (pairs.foldl (fun bs (p, v) => insertBinding p v bs) bs).lookup x =
      (pairs.reverse.lookup x).or (bs.lookup x) := by
  induction pairs generalizing bs with
  | nil => simp
  | cons pv rest ih =>
    obtain ⟨p, v⟩ := pv
    rw [List.foldl_cons, ih, List.reverse_cons, List.lookup_append, lookup_insertBinding]
    by_cases same : x = p <;> simp [lookup_cons_binding, same]

theorem mem_take_of_mem_zip {α β : Type} :
    ∀ {l₁ : List α} {l₂ : List β} {a : α} {b : β}, (a, b) ∈ l₁.zip l₂ → a ∈ l₁.take l₂.length
  | [], _, _, _, mem => by simp at mem
  | _ :: _, [], _, _, mem => by simp at mem
  | x :: xs, y :: ys, a, b, mem => by
    rw [List.zip_cons_cons, List.mem_cons] at mem
    rcases mem with same | later
    · cases same
      simp
    · exact List.mem_cons_of_mem x (mem_take_of_mem_zip later)

theorem lookup_zip_of_not_mem {params : List String} {vals : List Value} {x : String}
    (unpaired : x ∉ params.take vals.length) : ((params.zip vals).reverse).lookup x = none := by
  rw [List.lookup_eq_none_iff]
  rintro ⟨p, v⟩ mem
  have paired := mem_take_of_mem_zip (List.mem_reverse.1 mem)
  have differ : x ≠ p := fun same => unpaired (same ▸ paired)
  simpa using differ

namespace Store

theorem bindings_of_getElem? {s : Store} {id : FrameId} {f : Frame} (frame : s.frames[id]? = some f) :
    s.bindings id = f.bindings := by
  simp [bindings, frame]

theorem getElem?_define (s : Store) (id : FrameId) (name : String) (v : Value) (j : FrameId) :
    (s.define id name v).frames[j]? =
      if id = j then s.frames[j]?.map fun f => { f with bindings := insertBinding name v f.bindings }
      else s.frames[j]? := by
  simp only [define, Array.getElem?_modify]

theorem lookup_of_unbound {s : Store} {id o : FrameId} {f : Frame} {x : String}
    (frame : s.frames[id]? = some f) (unbound : f.bindings.lookup x = none)
    (linked : f.outer = some o) (older : o < id) : s.lookup id x = s.lookup o x := by
  rw [lookup]
  simp [frame, unbound, linked, older]

/-- The store a call's body starts from: a frame extending `outer` added, with each parameter
bound to its argument in turn. -/
def enter (s : Store) (outer : FrameId) (params : List String) (vals : List Value) : Store :=
  (params.zip vals).foldl (fun t (p, v) => t.define s.frames.size p v) (s.push (some outer)).2

/-- `t` comes from `s` by binding names and adding frames. -/
inductive Evolves (s : Store) : Store → Prop
  | refl : Evolves s s
  | define {t : Store} (id : FrameId) (name : String) (v : Value) :
      Evolves s t → Evolves s (t.define id name v)
  | push {t : Store} (outer : Option FrameId) : Evolves s t → Evolves s (t.push outer).2

namespace Evolves

theorem trans {s t u : Store} (first : Evolves s t) (second : Evolves t u) : Evolves s u := by
  induction second with
  | refl => exact first
  | define id name v _ ih => exact .define id name v ih
  | push outer _ ih => exact .push outer ih

theorem foldl_define {s : Store} (id : FrameId) (pairs : List (String × Value)) :
    Evolves s (pairs.foldl (fun t (p, v) => t.define id p v) s) := by
  induction pairs using List.reverseRecOn with
  | nil => exact .refl
  | append_singleton pairs pv ih =>
    rw [List.foldl_append, List.foldl_cons, List.foldl_nil]
    exact .define id pv.1 pv.2 ih

theorem outer_eq {s t : Store} (evolves : Evolves s t) {id : FrameId} {f : Frame}
    (frame : s.frames[id]? = some f) : ∃ g, t.frames[id]? = some g ∧ g.outer = f.outer := by
  induction evolves with
  | refl => exact ⟨f, frame, rfl⟩
  | define id' name v _ ih =>
    obtain ⟨g, found, same⟩ := ih
    rw [getElem?_define, found]
    split
    · exact ⟨_, rfl, same⟩
    · exact ⟨g, rfl, same⟩
  | @push t outer _ ih =>
    obtain ⟨g, found, same⟩ := ih
    have old : id < t.frames.size := by
      rcases Array.getElem?_eq_some_iff.1 found with ⟨old, -⟩
      exact old
    refine ⟨g, ?_, same⟩
    show (t.frames.push ⟨outer, []⟩)[id]? = some g
    rw [Array.getElem?_push, if_neg (Nat.ne_of_lt old)]
    exact found

end Evolves

end Store

namespace Eval

/-- Every run of the step, from any machine, changes the store only by binding names and adding
frames. -/
def Evolving {α : Type} (x : EvalM α) : Prop := ∀ m, Store.Evolves m.store (after (x.run m)).store

namespace Evolving

variable {α β : Type}

theorem pure (a : α) : Evolving (Pure.pure a : EvalM α) := fun _ => .refl

theorem throw (e : EvalError) : Evolving (MonadExcept.throw e : EvalM α) := fun _ => .refl

theorem get : Evolving (MonadState.get : EvalM Machine) := fun _ => .refl

theorem bind {x : EvalM α} {k : α → EvalM β} (first : Evolving x) (rest : ∀ a, Evolving (k a)) :
    Evolving (x >>= k) := by
  intro m
  have evolves := first m
  rw [EStateM.run_bind]
  cases run : x.run m with
  | ok a m' =>
    rw [run] at evolves
    exact evolves.trans (rest a m')
  | error e m' =>
    rw [run] at evolves
    exact evolves

theorem define (env : FrameId) (name : String) (v : Value) :
    Evolving (modify fun m => { m with store := m.store.define env name v } : EvalM PUnit) :=
  fun _ => .define env name v .refl

theorem enterFrame (outer : FrameId) (params : List String) (vals : List Value) :
    Evolving (Eval.enterFrame outer params vals) := fun _ =>
  (Store.Evolves.push (some outer) .refl).trans (Store.Evolves.foldl_define _ (params.zip vals))

variable (cfg : Config)

theorem note (t : Trace) : Evolving (Eval.note cfg t) := by
  unfold Eval.note
  split
  · exact fun _ => .refl
  · exact pure _

theorem degrade (e : EvalError) : Evolving (Eval.degrade cfg e) := by
  unfold Eval.degrade
  split
  · exact throw e
  · exact (note cfg _).bind fun _ => pure _

theorem unary (op : UnOp) (v : Value) : Evolving (Eval.unary cfg op v) := by
  unfold Eval.unary
  split
  · exact pure _
  · exact pure _
  · exact degrade cfg _

theorem binary (op : BinOp) (l r : Value) : Evolving (Eval.binary cfg op l r) := by
  unfold Eval.binary
  split
  · split
    · exact pure _
    · exact throw _
  · split
    · exact pure _
    · exact pure _
    · exact degrade cfg _
  · exact degrade cfg _

end Evolving

variable (cfg : Config)

theorem evaluation_evolves :
    (∀ b env e, Evolving (expr cfg b env e)) ∧
    (∀ b env es, Evolving (exprs cfg b env es)) ∧
    (∀ b env ss, Evolving (block cfg b env ss)) ∧
    (∀ b env ss last, Evolving (stmtsFrom cfg b env ss last)) ∧
    (∀ b env s, Evolving (stmt cfg b env s)) := by
  apply expr.mutual_induct
  · intro budget env name
    simp only [expr]
    refine Evolving.get.bind fun m => ?_
    split
    · exact Evolving.pure _
    · exact (Evolving.degrade cfg _).bind fun _ => Evolving.pure _
  · intro budget env n
    rw [expr]
    exact Evolving.pure _
  · intro budget env b
    rw [expr]
    exact Evolving.pure _
  · intro env op arg
    rw [expr]
    exact Evolving.throw _
  · intro env op arg b operand
    simp only [expr]
    refine operand.bind fun c => ?_
    cases c with
    | returning v => exact Evolving.pure _
    | normal v => exact (Evolving.unary cfg op v).bind fun _ => Evolving.pure _
  · intro env op lhs rhs
    rw [expr]
    exact Evolving.throw _
  · intro env op lhs rhs b left right
    simp only [expr]
    refine left.bind fun c => ?_
    cases c with
    | returning v => exact Evolving.pure _
    | normal l =>
      refine right.bind fun c => ?_
      cases c with
      | returning v => exact Evolving.pure _
      | normal r => exact (Evolving.binary cfg op l r).bind fun _ => Evolving.pure _
  · intro budget env test thenBlock elseBlock condition thenPart elsePart
    cases elseBlock with
    | some stmts =>
      rw [expr]
      refine condition.bind fun c => ?_
      cases c with
      | returning v => exact Evolving.pure _
      | normal c =>
        refine (Evolving.note cfg _).bind fun _ => ?_
        split
        · exact thenPart
        · exact elsePart
    | none =>
      rw [expr]
      refine condition.bind fun c => ?_
      cases c with
      | returning v => exact Evolving.pure _
      | normal c =>
        refine (Evolving.note cfg _).bind fun _ => ?_
        split
        · exact thenPart
        · exact Evolving.pure _
  · intro budget env params body
    rw [expr]
    exact Evolving.pure _
  · intro env callee args
    rw [expr]
    exact Evolving.throw _
  · intro env callee args b function arguments running
    simp only [expr]
    refine function.bind fun c => ?_
    cases c with
    | returning v => exact Evolving.pure _
    | normal v =>
      cases v
      case closure params body outer =>
        refine arguments.bind fun c => ?_
        cases c with
        | returning v => exact Evolving.pure _
        | normal vals =>
          exact (Evolving.enterFrame outer params vals).bind fun frame =>
            (running body frame).bind fun _ => Evolving.pure _
      all_goals exact (Evolving.degrade cfg _).bind fun _ => Evolving.pure _
  · intro budget env
    rw [exprs]
    exact Evolving.pure _
  · intro budget env e rest first others
    rw [exprs]
    refine first.bind fun c => ?_
    cases c with
    | returning v => exact Evolving.pure _
    | normal v =>
      refine others.bind fun c => ?_
      cases c <;> exact Evolving.pure _
  · intro env stmts
    rw [block]
    exact Evolving.throw _
  · intro env stmts b run
    rw [block]
    exact run
  · intro budget env last
    rw [stmtsFrom]
    exact Evolving.pure _
  · intro budget env s rest last first others
    rw [stmtsFrom]
    refine first.bind fun c => ?_
    cases c with
    | returning v => exact Evolving.pure _
    | normal v => exact others v
  · intro budget env name e value
    rw [stmt]
    refine value.bind fun c => ?_
    cases c with
    | returning v => exact Evolving.pure _
    | normal v => exact (Evolving.define env name v).bind fun _ => Evolving.pure _
  · intro budget env
    rw [stmt]
    exact Evolving.pure _
  · intro budget env e value
    rw [stmt]
    refine value.bind fun c => ?_
    cases c <;> exact Evolving.pure _
  · intro budget env e value
    rw [stmt]
    exact value

variable {cfg}

theorem expr_ident_run (budget : Nat) (env : FrameId) (x : String) (m : Machine) :
    (expr cfg budget env (.ident x)).run m =
      match m.store.lookup env x with
      | some v => .ok (.normal v) m
      | none =>
        if cfg.strict then .error (.unbound x) m
        else .ok (.normal .null)
          (if cfg.trace then { m with trace := m.trace.push (.degraded (.unbound x)) } else m) := by
  rw [expr]
  show (match m.store.lookup env x with
      | some v => pure (Completion.normal v)
      | none => do
        let v ← degrade cfg (.unbound x)
        pure (Completion.normal v) : EvalM (Completion Value)).run m = _
  cases m.store.lookup env x with
  | some v => rfl
  | none =>
    cases strict : cfg.strict <;> cases trace : cfg.trace <;>
      simp [degrade, note, EvalError.fatal, strict, trace] <;> rfl

theorem exprs_cons_normal {budget : Nat} {env : FrameId} {e : Expr} {rest : List Expr}
    {vals : List Value} {m m₂ : Machine} :
    (exprs cfg budget env (e :: rest)).run m = .ok (.normal vals) m₂ ↔
      ∃ v vs m₁, (expr cfg budget env e).run m = .ok (.normal v) m₁ ∧
        (exprs cfg budget env rest).run m₁ = .ok (.normal vs) m₂ ∧ vals = v :: vs := by
  rw [exprs, EStateM.run_bind]
  constructor
  · intro given
    cases first : (expr cfg budget env e).run m with
    | error err m₁ => rw [first] at given; cases given
    | ok c m₁ =>
      rw [first] at given
      cases c with
      | returning v => cases given
      | normal v =>
        dsimp only at given
        rw [EStateM.run_bind] at given
        cases others : (exprs cfg budget env rest).run m₁ with
        | error err m' => rw [others] at given; cases given
        | ok c' m' =>
          rw [others] at given
          cases c' with
          | returning w => cases given
          | normal vs =>
            cases given
            exact ⟨v, vs, m₁, rfl, others, rfl⟩
  · rintro ⟨v, vs, m₁, first, others, rfl⟩
    rw [first]
    dsimp only
    rw [EStateM.run_bind, others]
    rfl

theorem exprs_length {budget : Nat} {env : FrameId} {args : List Expr} {vals : List Value}
    {m m' : Machine} (given : (exprs cfg budget env args).run m = .ok (.normal vals) m') :
    vals.length = args.length := by
  induction args generalizing m vals with
  | nil =>
    rw [exprs] at given
    cases given
    rfl
  | cons e rest ih =>
    obtain ⟨v, vs, m₁, -, others, rfl⟩ := exprs_cons_normal.1 given
    simp [ih others]

theorem enterFrame_run (outer : FrameId) (params : List String) (vals : List Value) (m : Machine) :
    (enterFrame outer params vals).run m =
      .ok m.store.frames.size { m with store := m.store.enter outer params vals } :=
  rfl

theorem foldl_define_frame (id : FrameId) (pairs : List (String × Value)) {s : Store} {f : Frame}
    (frame : s.frames[id]? = some f) :
    (pairs.foldl (fun t (p, v) => t.define id p v) s).frames[id]? =
      some { f with bindings := pairs.foldl (fun bs (p, v) => insertBinding p v bs) f.bindings } := by
  induction pairs generalizing s f with
  | nil => simpa using frame
  | cons pv rest ih =>
    rw [List.foldl_cons, List.foldl_cons]
    have defined : (s.define id pv.1 pv.2).frames[id]? =
        some { f with bindings := insertBinding pv.1 pv.2 f.bindings } := by
      rw [Store.getElem?_define, if_pos rfl, frame]
      rfl
    exact ih defined

theorem enterFrame_frame (outer : FrameId) (params : List String) (vals : List Value) (s : Store) :
    (s.enter outer params vals).frames[s.frames.size]? =
      some ⟨some outer, (params.zip vals).foldl (fun bs (p, v) => insertBinding p v bs) []⟩ := by
  have pushed : (s.push (some outer)).2.frames[s.frames.size]? = some ⟨some outer, []⟩ := by
    simp [Store.push]
  exact foldl_define_frame _ _ pushed

theorem expr_call_closure {budget : Nat} {env outer : FrameId} {callee : Expr} {args : List Expr}
    {params : List String} {body : List Stmt} {vals : List Value} {m m₁ m₂ : Machine}
    (called : (expr cfg budget env callee).run m = .ok (.normal (.closure params body outer)) m₁)
    (given : (exprs cfg budget env args).run m₁ = .ok (.normal vals) m₂) :
    (expr cfg (budget + 1) env (.call callee args)).run m =
      (block cfg budget m₂.store.frames.size body >>= fun c => pure (.normal c.value)).run
        { m₂ with store := m₂.store.enter outer params vals } := by
  rw [expr, EStateM.run_bind, called]
  dsimp only
  rw [EStateM.run_bind, given]
  dsimp only
  rw [EStateM.run_bind, enterFrame_run]

end Eval

end Monkey
