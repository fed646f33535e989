import Monkey.Proofs.Calls

/-!
# Closures name frames of the store

A closure keeps the frame it was made in by its place in the store, and a frame keeps the frame it
extends the same way. Frames are only ever added, never removed, so such a place, once valid, stays
valid.

`Value.Within n v` says that a closure `v` names a frame below `n`. `Store.Linked s` says that every
frame of `s` extends an earlier frame, if any, and that every value bound in `s` names a frame of
`s`. From a linked store and a frame of it, every evaluation function ends in a linked store no
smaller than the one it started from, whether it returns or fails, and what it returns names only
frames of that store (`Eval.evaluation_keeps_links`). The proof goes along the evaluator's recursion
with `Eval.Linking`, which is closed under `bind`. A fresh session's store is linked, and running
sources keeps it so (`session_store_linked`).

So the closure a call receives names a frame of the store, and the frame added for the call extends
it: a parameter left without an argument reads the closure's frames
(`missing_argument_reads_closure_frame`).
-/

set_option autoImplicit false
set_option relaxedAutoImplicit false

namespace Monkey

/-- A value names only frames below `n`: a closure's frame is one of them. -/
def Value.Within (n : Nat) : Value → Prop
  | .closure _ _ env => env < n
  | _ => True

theorem Value.Within.mono {n n' : Nat} {v : Value} (within : v.Within n) (grows : n ≤ n') :
    v.Within n' := by
  cases v with
  | closure params body env => exact Nat.lt_of_lt_of_le within grows
  | _ => trivial

theorem mem_of_lookup_eq_some {x : String} {v : Value} :
    ∀ {bs : List (String × Value)}, bs.lookup x = some v → (x, v) ∈ bs
  | [], found => by simp at found
  | (n, w) :: rest, found => by
    rw [lookup_cons_binding] at found
    split at found
    · cases found
      simp [*]
    · exact List.mem_cons_of_mem _ (mem_of_lookup_eq_some found)

theorem mem_insertBinding {name : String} {v : Value} {b : String × Value} :
    ∀ {bs : List (String × Value)}, b ∈ insertBinding name v bs → b = (name, v) ∨ b ∈ bs
  | [], mem => by simpa [insertBinding] using mem
  | (n, w) :: rest, mem => by
    unfold insertBinding at mem
    split at mem
    · simpa using mem
    · split at mem
      · rcases List.mem_cons.1 mem with new | old
        · exact .inl new
        · exact .inr (List.mem_cons_of_mem _ old)
      · rcases List.mem_cons.1 mem with here | later
        · exact .inr (here ▸ List.mem_cons_self)
        · rcases mem_insertBinding later with new | old
          · exact .inl new
          · exact .inr (List.mem_cons_of_mem _ old)

namespace Store

/-- Every frame extends an earlier frame, if any, and every bound value names a frame. -/
structure Linked (s : Store) : Prop where
  outer_lt : ∀ {id : FrameId} {f : Frame} {o : FrameId}, s.frames[id]? = some f →
    f.outer = some o → o < id
  within : ∀ id, ∀ b ∈ s.bindings id, b.2.Within s.frames.size

@[simp] theorem size_define (s : Store) (id : FrameId) (name : String) (v : Value) :
    (s.define id name v).frames.size = s.frames.size := by
  simp [define]

@[simp] theorem size_push (s : Store) (outer : Option FrameId) :
    (s.push outer).2.frames.size = s.frames.size + 1 := by
  simp [push]

theorem size_foldl_define (id : FrameId) (pairs : List (String × Value)) (s : Store) :
    (pairs.foldl (fun t (p, v) => t.define id p v) s).frames.size = s.frames.size := by
  induction pairs generalizing s with
  | nil => rfl
  | cons pv rest ih => rw [List.foldl_cons, ih, size_define]

@[simp] theorem size_enter (s : Store) (outer : FrameId) (params : List String)
    (vals : List Value) : (s.enter outer params vals).frames.size = s.frames.size + 1 := by
  rw [enter, size_foldl_define, size_push]

namespace Linked

variable {s : Store}

theorem init : Store.init.Linked where
  outer_lt {id} {f} {o} found linked := by
    match id, found with
    | 0, found =>
      cases found
      cases linked
  within id b mem := by
    match id with
    | 0 => cases mem
    | _ + 1 => cases mem

theorem define (linked : s.Linked) (id : FrameId) (name : String) {v : Value}
    (within : v.Within s.frames.size) : (s.define id name v).Linked where
  outer_lt {j} {f} {o} found outer := by
    rw [getElem?_define] at found
    split at found
    · obtain ⟨g, old, rfl⟩ := Option.map_eq_some_iff.1 found
      exact linked.outer_lt old outer
    · exact linked.outer_lt found outer
  within j b mem := by
    rw [size_define]
    unfold bindings at mem
    rw [getElem?_define] at mem
    split_ifs at mem with here
    · -- the frame written: its bindings are the old ones and the new one
      cases old : s.frames[j]? with
      | none => simp [old] at mem
      | some f =>
        simp only [old, Option.map_some] at mem
        rcases mem_insertBinding mem with new | kept
        · exact new ▸ within
        · exact linked.within j b (by rwa [bindings_of_getElem? old])
    · exact linked.within j b mem

theorem push (linked : s.Linked) {outer : Option FrameId}
    (before : ∀ o, outer = some o → o < s.frames.size) : (s.push outer).2.Linked where
  outer_lt {id} {f} {o} found linked' := by
    simp only [Store.push, Array.getElem?_push] at found
    split at found
    · cases found
      exact (‹id = s.frames.size›) ▸ before o linked'
    · exact linked.outer_lt found linked'
  within id b mem := by
    rw [size_push]
    simp only [bindings, Store.push, Array.getElem?_push] at mem
    split_ifs at mem
    · cases mem
    · exact (linked.within id b mem).mono (Nat.le_succ _)

theorem foldl_define (linked : s.Linked) (id : FrameId) (pairs : List (String × Value))
    (within : ∀ pv ∈ pairs, pv.2.Within s.frames.size) :
    (pairs.foldl (fun t (p, v) => t.define id p v) s).Linked := by
  induction pairs generalizing s with
  | nil => exact linked
  | cons pv rest ih =>
    rw [List.foldl_cons]
    refine ih (linked.define id pv.1 (within pv List.mem_cons_self)) fun qv mem => ?_
    rw [size_define]
    exact within qv (List.mem_cons_of_mem _ mem)

theorem enter (linked : s.Linked) {outer : FrameId} (before : outer < s.frames.size)
    (params : List String) {vals : List Value} (within : ∀ v ∈ vals, v.Within s.frames.size) :
    (s.enter outer params vals).Linked := by
  refine (linked.push fun o same => Option.some_inj.1 same ▸ before).foldl_define _ _ ?_
  intro pv mem
  rw [size_push]
  exact (within pv.2 (List.of_mem_zip mem).2).mono (Nat.le_succ _)

/-- What a name looks up to in a linked store names a frame of it. -/
theorem lookup (linked : s.Linked) {x : String} :
    ∀ (id : FrameId) {v : Value}, s.lookup id x = some v → v.Within s.frames.size := by
  intro id
  induction id using Nat.strong_induction_on with
  | _ id outward =>
    intro v found
    rw [Store.lookup] at found
    cases frame : s.frames[id]? with
    | none => simp [frame] at found
    | some f =>
      simp only [frame] at found
      cases here : f.bindings.lookup x with
      | some w =>
        simp only [here, Option.some_inj] at found
        subst found
        have bound : (x, w) ∈ s.bindings id := by
          rw [bindings_of_getElem? frame]
          exact mem_of_lookup_eq_some here
        exact linked.within id (x, w) bound
      | none =>
        simp only [here] at found
        split at found
        · split at found
          · exact outward _ ‹_› found
          · cases found
        · cases found

end Linked

end Store

/-- The values a completion carries: a returned value, or what `inner` reads off a result. -/
def Completion.values {α : Type} (inner : α → List Value) : Completion α → List Value
  | .normal a => inner a
  | .returning v => [v]

namespace Eval

/-- How a run from `m` ends when it keeps the store linked: in a linked store no smaller than
`m`'s, with the values `holds` reads off a result naming only frames of it. -/
def EndsLinked {α : Type} (m : Machine) (holds : α → List Value) :
    EStateM.Result EvalError Machine α → Prop
  | .ok a m' => m'.store.Linked ∧ m.store.frames.size ≤ m'.store.frames.size ∧
      ∀ v ∈ holds a, v.Within m'.store.frames.size
  | .error _ m' => m'.store.Linked ∧ m.store.frames.size ≤ m'.store.frames.size

theorem EndsLinked.of_grows {α : Type} {m m₁ : Machine} {holds : α → List Value}
    {r : EStateM.Result EvalError Machine α}
    (grows : m.store.frames.size ≤ m₁.store.frames.size) (ends : EndsLinked m₁ holds r) :
    EndsLinked m holds r := by
  cases r with
  | ok a m' => exact ⟨ends.1, Nat.le_trans grows ends.2.1, ends.2.2⟩
  | error e m' => exact ⟨ends.1, Nat.le_trans grows ends.2⟩

theorem EndsLinked.after {α : Type} {m : Machine} {holds : α → List Value}
    {r : EStateM.Result EvalError Machine α} (ends : EndsLinked m holds r) :
    (after r).store.Linked ∧ m.store.frames.size ≤ (after r).store.frames.size := by
  cases r with
  | ok a m' => exact ⟨ends.1, ends.2.1⟩
  | error e m' => exact ends

/-- Every run of the step from a linked store, in which `env` is a frame and every value of
`held` names a frame, ends linked. `held` is what the surrounding evaluation still holds. -/
def Linking {α : Type} (env : FrameId) (held : List Value) (holds : α → List Value)
    (x : EvalM α) : Prop :=
  ∀ m : Machine, m.store.Linked → env < m.store.frames.size →
    (∀ v ∈ held, v.Within m.store.frames.size) → EndsLinked m holds (x.run m)

namespace Linking

variable {α β : Type} {env : FrameId} {held : List Value}

theorem weaken {held' : List Value} {holds : α → List Value} {x : EvalM α}
    (linking : Linking env held holds x)
    (implied : ∀ n, (∀ v ∈ held', v.Within n) → ∀ v ∈ held, v.Within n) :
    Linking env held' holds x :=
  fun m linked inEnv within => linking m linked inEnv (implied _ within)

theorem pure {holds : α → List Value} (a : α)
    (covered : ∀ n, env < n → (∀ v ∈ held, v.Within n) → ∀ v ∈ holds a, v.Within n) :
    Linking env held holds (Pure.pure a : EvalM α) :=
  fun _ linked inEnv within => ⟨linked, Nat.le_refl _, covered _ inEnv within⟩

theorem pure_held {holds : α → List Value} (a : α) (sub : ∀ v ∈ holds a, v ∈ held) :
    Linking env held holds (Pure.pure a : EvalM α) :=
  pure a fun _ _ within v mem => within v (sub v mem)

theorem throw {holds : α → List Value} (e : EvalError) :
    Linking env held holds (MonadExcept.throw e : EvalM α) :=
  fun _ linked _ _ => ⟨linked, Nat.le_refl _⟩

theorem of_modify (f : Machine → Machine) (same : ∀ m, (f m).store = m.store) :
    Linking env held (fun _ => []) (modify f : EvalM PUnit) := by
  intro m linked _ _
  show EndsLinked m _ (.ok PUnit.unit (f m))
  exact ⟨by rw [same]; exact linked, by rw [same], by simp⟩

theorem bind {h₁ : α → List Value} {h₂ : β → List Value} {x : EvalM α}
    {k : α → EvalM β} (first : Linking env held h₁ x)
    (rest : ∀ a, Linking env (held ++ h₁ a) h₂ (k a)) : Linking env held h₂ (x >>= k) := by
  intro m linked inEnv within
  have ends := first m linked inEnv within
  rw [EStateM.run_bind]
  cases run : x.run m with
  | error e m' =>
    rw [run] at ends
    exact ends
  | ok a m₁ =>
    rw [run] at ends
    obtain ⟨linked₁, grows, produced⟩ := ends
    -- what was held, and what the first step produced, name frames of the larger store
    have held₁ : ∀ v ∈ held ++ h₁ a, v.Within m₁.store.frames.size := by
      intro v mem
      rcases List.mem_append.1 mem with old | new
      · exact (within v old).mono grows
      · exact produced v new
    exact (rest a m₁ linked₁ (Nat.lt_of_lt_of_le inEnv grows) held₁).of_grows grows

/-- A binding of a held value. -/
theorem define {name : String} {v : Value} (bound : v ∈ held) :
    Linking env held (fun _ => [])
      (modify fun m => { m with store := m.store.define env name v } : EvalM PUnit) := by
  intro m linked _ within
  exact ⟨linked.define env name (within v bound), by simp, by simp⟩

/-- A call's frame: added after a closure of `held` made in `outer`, binding values of `held`. -/
theorem enterFrame_bind {outer : FrameId} {params : List String} {args : List Value}
    {holds : β → List Value} {k : FrameId → EvalM β}
    (reach : ∀ n, (∀ v ∈ held, v.Within n) → outer < n ∧ ∀ v ∈ args, v.Within n)
    (body : ∀ frame, Linking frame held holds (k frame)) :
    Linking env held holds (enterFrame outer params args >>= k) := by
  intro m linked _ within
  obtain ⟨before, argsWithin⟩ := reach _ within
  have grows : m.store.frames.size ≤ (m.store.enter outer params args).frames.size := by simp
  rw [EStateM.run_bind, enterFrame_run]
  refine (body m.store.frames.size _ (linked.enter before params argsWithin) ?_ ?_).of_grows grows
  · simp
  · exact fun v mem => (within v mem).mono grows

variable (cfg : Config)

theorem note (t : Trace) : Linking env held (fun _ => []) (Eval.note cfg t) := by
  unfold Eval.note
  split
  · exact of_modify _ fun _ => rfl
  · exact pure _ fun _ _ _ => by simp

theorem degrade (e : EvalError) : Linking env held (fun v => [v]) (Eval.degrade cfg e) := by
  unfold Eval.degrade
  split
  · exact throw e
  · exact (note cfg _).bind fun _ => pure _ fun _ _ _ => by simp [Value.Within]

theorem unary (op : UnOp) (v : Value) : Linking env held (fun v => [v]) (Eval.unary cfg op v) := by
  unfold Eval.unary
  split
  · exact pure _ fun _ _ _ => by simp [Value.Within]
  · exact pure _ fun _ _ _ => by simp [Value.Within]
  · exact degrade cfg _

theorem binary (op : BinOp) (l r : Value) :
    Linking env held (fun v => [v]) (Eval.binary cfg op l r) := by
  unfold Eval.binary
  split
  · split
    · -- integer operations give integers and booleans
      rename_i a b v computed
      refine pure _ fun _ _ _ => ?_
      cases op <;> simp only [intBinary] at computed <;> (try split at computed) <;>
        cases computed <;> simp [Value.Within]
    · exact throw _
  · split
    · exact pure _ fun _ _ _ => by simp [Value.Within]
    · exact pure _ fun _ _ _ => by simp [Value.Within]
    · exact degrade cfg _
  · exact degrade cfg _

end Linking

variable (cfg : Config)

/-- Evaluation keeps the store linked: from a linked store and a frame of it, every evaluation
function ends in a linked store no smaller than the one it started from, and what it gives names
only frames of that store; `stmtsFrom` needs the same of the value it starts with. -/
theorem evaluation_keeps_links :
    (∀ b env e, Linking env [] (·.values ([·])) (expr cfg b env e)) ∧
    (∀ b env es, Linking env [] (·.values id) (exprs cfg b env es)) ∧
    (∀ b env ss, Linking env [] (·.values ([·])) (block cfg b env ss)) ∧
    (∀ b env ss last, Linking env [last] (·.values ([·])) (stmtsFrom cfg b env ss last)) ∧
    (∀ b env s, Linking env [] (·.values ([·])) (stmt cfg b env s)) := by
  apply expr.mutual_induct
  · -- a name reads a value bound in the store
    intro budget env name m linked inEnv _
    rw [expr_ident_run]
    cases found : m.store.lookup env name with
    | some v =>
      exact ⟨linked, Nat.le_refl _, by simpa [Completion.values] using linked.lookup env found⟩
    | none =>
      dsimp only
      split
      · exact ⟨linked, Nat.le_refl _⟩
      · refine ⟨?_, ?_, by simp [Completion.values, Value.Within]⟩ <;> split
        all_goals first | exact linked | exact Nat.le_refl _
  · intro budget env n
    rw [expr]
    exact Linking.pure _ fun _ _ _ => by simp [Completion.values, Value.Within]
  · intro budget env b
    rw [expr]
    exact Linking.pure _ fun _ _ _ => by simp [Completion.values, Value.Within]
  · intro env op arg
    rw [expr]
    exact Linking.throw _
  · intro env op arg b operand
    simp only [expr]
    refine operand.bind fun c => ?_
    cases c with
    | returning v => exact Linking.pure_held _ (by simp [Completion.values])
    | normal v =>
      refine (Linking.unary cfg op v).bind fun w => Linking.pure_held _ ?_
      simp [Completion.values]
  · intro env op lhs rhs
    rw [expr]
    exact Linking.throw _
  · intro env op lhs rhs b left right
    simp only [expr]
    refine left.bind fun c => ?_
    cases c with
    | returning v => exact Linking.pure_held _ (by simp [Completion.values])
    | normal l =>
      refine (right.weaken fun _ _ => by simp).bind fun c => ?_
      cases c with
      | returning v => exact Linking.pure_held _ (by simp [Completion.values])
      | normal r =>
        refine (Linking.binary cfg op l r).bind fun w => Linking.pure_held _ ?_
        simp [Completion.values]
  · -- the blocks of a conditional run in the conditional's own frame
    intro budget env test thenBlock elseBlock condition thenPart elsePart
    cases elseBlock with
    | some stmts =>
      rw [expr]
      refine condition.bind fun c => ?_
      cases c with
      | returning v => exact Linking.pure_held _ (by simp [Completion.values])
      | normal c =>
        refine (Linking.note cfg _).bind fun _ => ?_
        split
        · exact thenPart.weaken fun _ _ => by simp
        · exact elsePart.weaken fun _ _ => by simp
    | none =>
      rw [expr]
      refine condition.bind fun c => ?_
      cases c with
      | returning v => exact Linking.pure_held _ (by simp [Completion.values])
      | normal c =>
        refine (Linking.note cfg _).bind fun _ => ?_
        split
        · exact thenPart.weaken fun _ _ => by simp
        · exact Linking.pure _ fun _ _ _ => by simp [Completion.values, Value.Within]
  · -- a function literal names the frame it is evaluated in
    intro budget env params body
    rw [expr]
    exact Linking.pure _ fun _ inEnv _ => by simpa [Completion.values, Value.Within] using inEnv
  · intro env callee args
    rw [expr]
    exact Linking.throw _
  · -- the closure called, and the arguments, are held while the call's frame is added
    intro env callee args b function arguments running
    simp only [expr]
    refine function.bind fun c => ?_
    cases c with
    | returning v => exact Linking.pure_held _ (by simp [Completion.values])
    | normal v =>
      cases v
      case closure params body outer =>
        refine (arguments.weaken fun _ _ => by simp).bind fun c => ?_
        cases c with
        | returning v => exact Linking.pure_held _ (by simp [Completion.values])
        | normal vals =>
          refine Linking.enterFrame_bind (fun n within => ⟨?_, ?_⟩) fun frame => ?_
          · simpa [Completion.values, Value.Within] using within (.closure params body outer)
          · exact fun v mem => within v (by simp [Completion.values, mem])
          · refine ((running body frame).weaken fun _ _ => by simp).bind fun c => ?_
            exact Linking.pure_held _ (by cases c <;> simp [Completion.values, Completion.value])
      all_goals
        exact (Linking.degrade cfg _).bind fun w =>
          Linking.pure_held _ (by simp [Completion.values])
  · intro budget env
    rw [exprs]
    exact Linking.pure _ fun _ _ _ => by simp [Completion.values]
  · intro budget env e rest first others
    rw [exprs]
    refine first.bind fun c => ?_
    cases c with
    | returning v => exact Linking.pure_held _ (by simp [Completion.values])
    | normal v =>
      refine (others.weaken fun _ _ => by simp).bind fun c => ?_
      cases c with
      | returning w => exact Linking.pure_held _ (by simp [Completion.values])
      | normal vs => exact Linking.pure_held _ (by simp [Completion.values])
  · intro env stmts
    rw [block]
    exact Linking.throw _
  · intro env stmts b run
    rw [block]
    exact run.weaken fun _ _ => by simp [Value.Within]
  · intro budget env last
    rw [stmtsFrom]
    exact Linking.pure_held _ (by simp [Completion.values])
  · intro budget env s rest last first others
    rw [stmtsFrom]
    refine (first.weaken fun _ _ => by simp).bind fun c => ?_
    cases c with
    | returning v => exact Linking.pure_held _ (by simp [Completion.values])
    | normal v =>
      exact (others v).weaken fun _ within w mem => within w (by simp_all [Completion.values])
  · -- a binding binds a value the evaluation produced
    intro budget env name e value
    rw [stmt]
    refine value.bind fun c => ?_
    cases c with
    | returning v => exact Linking.pure_held _ (by simp [Completion.values])
    | normal v =>
      exact (Linking.define (by simp [Completion.values])).bind fun _ =>
        Linking.pure_held _ (by simp [Completion.values])
  · intro budget env
    rw [stmt]
    exact Linking.pure _ fun _ _ _ => by simp [Completion.values, Value.Within]
  · intro budget env e value
    rw [stmt]
    refine value.bind fun c => ?_
    cases c <;> exact Linking.pure_held _ (by simp [Completion.values])
  · intro budget env e value
    rw [stmt]
    exact value

theorem program_keeps_links (env : FrameId) (ss : List Stmt) (last : Value) :
    Linking env [last] (fun v => [v]) (program cfg env ss last) := by
  induction ss generalizing last with
  | nil => exact Linking.pure_held _ (by simp)
  | cons s rest ih =>
    simp only [program]
    refine (Linking.note cfg _).bind fun _ => ?_
    refine (((evaluation_keeps_links cfg).2.2.2.2 _ _ _).weaken fun _ _ => by simp).bind
      fun c => ?_
    cases c with
    | returning v => exact Linking.pure_held _ (by simp [Completion.values])
    | normal v =>
      refine (Linking.note cfg _).bind fun _ => ?_
      exact (ih v).weaken fun _ within w mem => within w (by simp_all [Completion.values])

end Eval

namespace Interpreter

/-- A session's store, with its global frame, stays linked through every source it runs. -/
theorem evalSource_keeps_links (ip : Interpreter) (src : List UInt8)
    (ready : ip.machine.store.Linked ∧ global < ip.machine.store.frames.size) :
    (ip.evalSource src).2.machine.store.Linked ∧
      global < (ip.evalSource src).2.machine.store.frames.size := by
  unfold evalSource
  split
  · exact ready
  · show (ip.eval _).2.machine.store.Linked ∧ global < (ip.eval _).2.machine.store.frames.size
    rw [eval, exec_machine]
    obtain ⟨linked, grows⟩ := (Eval.program_keeps_links ip.config global _ .null ip.machine
      ready.1 ready.2 (by simp [Value.Within])).after
    exact ⟨linked, Nat.lt_of_lt_of_le ready.2 grows⟩

end Interpreter

/-- Every session that starts fresh and runs sources in turn has a linked store: every frame
extends an earlier one and every bound closure names a frame of the store. -/
theorem session_store_linked (strict : Bool) (depth : Int) (trace : Bool)
    (srcs : List (List UInt8)) :
    (srcs.foldl (fun ip src => (ip.evalSource src).2)
      (Interpreter.create strict depth trace)).machine.store.Linked := by
  -- the invariant carried along the session also keeps the global frame in the store
  suffices ∀ ip : Interpreter, ip.machine.store.Linked ∧
      Interpreter.global < ip.machine.store.frames.size →
      (srcs.foldl (fun ip src => (ip.evalSource src).2) ip).machine.store.Linked ∧
        Interpreter.global <
          (srcs.foldl (fun ip src => (ip.evalSource src).2) ip).machine.store.frames.size
    from (this (Interpreter.create strict depth trace) ⟨Store.Linked.init, Nat.zero_lt_one⟩).1
  induction srcs with
  | nil => exact fun _ ready => ready
  | cons src rest ih => exact fun ip ready => ih _ (ip.evalSource_keeps_links src ready)

open Eval

/-- A closure called with fewer arguments than parameters, from a linked store and a frame of it.
The call evaluates every argument, in order, then runs the body in a frame added for it, which
extends the closure's frame (a frame of the store, as evaluation keeps every closure's) and binds
the parameters to the arguments pairwise, a later parameter of the same name winning, and nothing
else. A parameter `p` past the arguments, of a name no parameter with an argument has, is unbound
there; and a reference to it in that frame, in any state the store evolves to while the frame
still does not bind `p`, reads `p` from the closure's frames: their binding if they have one, else
null leniently and an unbound identifier strictly. -/
theorem missing_argument_reads_closure_frame {cfg : Config} {budget : Nat} {env outer : FrameId}
    {callee : Expr} {args : List Expr} {params : List String} {body : List Stmt}
    {vals : List Value} {m m₁ m₂ : Machine} (linked : m.store.Linked)
    (inEnv : env < m.store.frames.size)
    (called : (expr cfg budget env callee).run m = .ok (.normal (.closure params body outer)) m₁)
    (given : (exprs cfg budget env args).run m₁ = .ok (.normal vals) m₂) :
    let frame := m₂.store.frames.size
    let entered : Machine := { m₂ with store := m₂.store.enter outer params vals }
    vals.length = args.length ∧
    (expr cfg (budget + 1) env (.call callee args)).run m =
      (block cfg budget frame body >>= fun c => pure (.normal c.value)).run entered ∧
    (∃ bs, entered.store.frames[frame]? = some ⟨some outer, bs⟩ ∧
      ∀ x, bs.lookup x = ((params.zip vals).reverse).lookup x) ∧
    ∀ p ∈ params.drop vals.length, p ∉ params.take vals.length →
      (entered.store.bindings frame).lookup p = none ∧
      ∀ m' : Machine, Store.Evolves entered.store m'.store →
        (m'.store.bindings frame).lookup p = none → ∀ b,
        match m'.store.lookup outer p with
        | some v => (expr cfg b frame (.ident p)).run m' = .ok (.normal v) m'
        | none =>
          (cfg.strict = true → (expr cfg b frame (.ident p)).run m' = .error (.unbound p) m') ∧
          (cfg.strict = false →
            ∃ m'', (expr cfg b frame (.ident p)).run m' = .ok (.normal .null) m'') := by
  intro frame entered
  -- the closure names a frame of the store, and evaluating the arguments only adds frames
  have made : outer < m₂.store.frames.size := by
    have calleeEnds := (evaluation_keeps_links cfg).1 budget env callee m linked inEnv (by simp)
    rw [called] at calleeEnds
    obtain ⟨linked₁, grows₁, produced⟩ := calleeEnds
    have argsEnds := (evaluation_keeps_links cfg).2.1 budget env args m₁ linked₁
      (Nat.lt_of_lt_of_le inEnv grows₁) (by simp)
    rw [given] at argsEnds
    exact Nat.lt_of_lt_of_le (produced (.closure params body outer) (by simp [Completion.values]))
      argsEnds.2.1
  have added := enterFrame_frame outer params vals m₂.store
  -- the call frame's bindings, looked up, are the pairs of parameters and arguments
  have paired : ∀ x,
      ((params.zip vals).foldl (fun bs (p, v) => insertBinding p v bs) []).lookup x =
        ((params.zip vals).reverse).lookup x := by
    intro x
    rw [lookup_foldl_insertBinding]
    simp
  refine ⟨exprs_length given, expr_call_closure called given, ⟨_, added, paired⟩,
    fun p _ unpaired => ⟨?_, fun m' evolves unbound b => ?_⟩⟩
  · rw [Store.bindings_of_getElem? added, paired]
    exact lookup_zip_of_not_mem unpaired
  · -- the call frame still extends the closure's frame, so lookup goes on there
    obtain ⟨g, found, linked⟩ := evolves.outer_eq added
    have outward : m'.store.lookup frame p = m'.store.lookup outer p :=
      Store.lookup_of_unbound found (by rwa [← Store.bindings_of_getElem? found]) linked made
    rw [expr_ident_run, outward]
    cases m'.store.lookup outer p with
    | some v => rfl
    | none =>
      exact ⟨fun strict => if_pos strict, fun lenient => ⟨_, if_neg (by simp [lenient])⟩⟩

/-- `fn(x) { x }`, made in a global frame binding `x` to 5 and called without arguments, reads
that 5 for its parameter. -/
theorem missing_argument_reads_global :
    let global : Machine := { store := ⟨#[⟨none, [("x", .int 5)]⟩]⟩ }
    let entered : Machine := { global with store := global.store.enter 0 ["x"] [] }
    global.store.Linked ∧ 0 < global.store.frames.size ∧
    (expr {} 0 0 (.func ["x"] [.expr (.ident "x")])).run global =
      .ok (.normal (.closure ["x"] [.expr (.ident "x")] 0)) global ∧
    (exprs {} 0 0 []).run global = .ok (.normal []) global ∧
    (expr {} 0 1 (.ident "x")).run entered = .ok (.normal (.int 5)) entered := by
  intro global entered
  have defined : (Store.init.define Store.global "x" (.int 5)).Linked :=
    Store.Linked.init.define Store.global "x" trivial
  have linked : global.store.Linked := defined
  have inEnv : 0 < global.store.frames.size := by decide
  have called : (expr {} 0 0 (.func ["x"] [.expr (.ident "x")])).run global =
      .ok (.normal (.closure ["x"] [.expr (.ident "x")] 0)) global := by
    rw [expr]
    rfl
  have given : (exprs {} 0 0 []).run global = .ok (.normal []) global := by
    rw [exprs]
    rfl
  obtain ⟨-, -, -, missing⟩ := missing_argument_reads_closure_frame linked inEnv called given
  have reads := (missing "x" (by simp) (by simp)).2 entered .refl (by decide) 0
  refine ⟨linked, inEnv, called, given, ?_⟩
  rw [show entered.store.lookup 0 "x" = some (.int 5) by cbv] at reads
  exact reads

/-- The program `let x = 5; let f = fn(x) { x }; f()`: called without its argument, `f` reads the
global 5 for its parameter, leniently and strictly alike, though the frame of the call (the
second) binds nothing. -/
theorem missing_parameter_reads_captured_binding :
    let prog : List Stmt := [.bind "x" (.int 5), .bind "f" (.func ["x"] [.expr (.ident "x")]),
      .expr (.call (.ident "f") [])]
    let final : Machine :=
      { store := ⟨#[⟨none, [("f", .closure ["x"] [.expr (.ident "x")] 0), ("x", .int 5)]⟩,
          ⟨some 0, []⟩]⟩ }
    (Eval.program {} Store.global prog .null).run {} = .ok (.int 5) final ∧
    (Eval.program { strict := true } Store.global prog .null).run {} = .ok (.int 5) final := by
  intro prog final
  constructor <;> cbv

end Monkey
