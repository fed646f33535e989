import Monkey.Proofs.Reprinting
import Monkey.Proofs.LexicalErrors

/-!
# Printed programs read back within the nesting limit

The parser spends one unit of its nesting budget on every expression it starts, and its budget is
the nesting limit. Reading the printed text of a tree, where every operation stands in its own
parentheses, it starts expressions in a pattern that the tree alone fixes: `Expr.nesting` counts
the deepest of them. This module shows that the printed text of a reprintable tree reads back as
the tree whenever that count is within the budget, however many tokens the text has.

The proof follows the parser over the printed text. `Yields` says that a step returns a given
value with no error and leaves a given rest; the operator loop is followed round by round
(`CallRounds`), since it reads the calls of an operand in the same loop that reads the operators
after it. Each parse function has a reading lemma that takes the readings of the parts it calls,
and one mutual recursion over the tree (`operand_reads`) puts them together.

`Monkey.Proofs.PrintedDepth` shows the converse: past the limit the printed text does not read
back.
-/

set_option autoImplicit false
set_option relaxedAutoImplicit false

namespace Monkey

mutual

/-- How many expressions the parser nests to read the printed text of an expression: one for the
expression itself, and below it one more for the inside of the parentheses of an operation, for
the operand of a prefix operator, for an operator's right operand, for the arguments of a call,
and for the statements of a block. A conditional's test shares its parentheses with the
conditional. -/
def Expr.nesting : Expr → Nat
  | .ident _ | .int _ | .bool _ => 1
  | .unop _ arg => arg.nesting + 2
  | .binop _ l r => max l.nesting (r.nesting + 1) + 1
  | .cond test t none => max test.nesting (stmtsNesting t + 1)
  | .cond test t (some e) => max test.nesting (max (stmtsNesting t) (stmtsNesting e) + 1)
  | .func _ body => stmtsNesting body + 1
  | .call callee args => max callee.nesting (argsNesting args + 1)

/-- The deepest nesting among call arguments. -/
def argsNesting : List Expr → Nat
  | [] => 0
  | a :: rest => max a.nesting (argsNesting rest)

/-- The nesting of a statement's expression, if it has one. -/
def Stmt.nesting : Stmt → Nat
  | .bind _ value | .ret (some value) | .expr value => value.nesting
  | .ret none => 0

/-- The deepest nesting among statements. -/
def stmtsNesting : List Stmt → Nat
  | [] => 0
  | s :: rest => max s.nesting (stmtsNesting rest)

end

/-- How many expressions the parser nests to read the printed text of a program. -/
def Program.nesting (p : Program) : Nat := stmtsNesting p.stmts

theorem Expr.one_le_nesting (e : Expr) : 1 ≤ e.nesting := by
  cases e with
  | cond test t els => cases els <;> simp [nesting]
  | _ => simp [nesting]

/-- The printed text of an expression starts with a token that starts an expression. -/
theorem Expr.kinds_opens : (e : Expr) → ∃ k ks, e.kinds = k :: ks ∧ Grammar.opensExpr k = true
  | .ident _ | .int _ | .unop .. | .binop .. | .func .. => ⟨_, _, rfl, rfl⟩
  | .bool b => by cases b <;> exact ⟨_, _, rfl, rfl⟩
  | .cond _ _ els => by cases els <;> exact ⟨_, _, rfl, rfl⟩
  | .call callee args => by
    obtain ⟨k, ks, kinds, opens⟩ := callee.kinds_opens
    exact ⟨k, ks ++ .lparen :: argKinds args ++ [.rparen], by simp [Expr.kinds, kinds], opens⟩

theorem Expr.kinds_of_operation {e : Expr} (operation : e.isOperation = true) :
    ∃ ks, e.kinds = .lparen :: ks := by
  cases e <;> simp [Expr.isOperation] at operation <;> exact ⟨_, rfl⟩

/-- With the printed text of an operation in view, the parser is on its `(`. -/
theorem Expr.cur_of_operation {e : Expr} {p : Parser} {after : List Token.Kind}
    (operation : e.isOperation = true) (view : p.view = e.kinds ++ after) :
    p.cur.kind = .lparen := by
  obtain ⟨ks, kinds⟩ := Expr.kinds_of_operation operation
  rw [Parser.view_eq_cons, kinds] at view
  exact (List.cons.inj view).1

/-- Printed arguments start with a token that starts an expression. -/
theorem argKinds_head {args : List Expr} (nonempty : args ≠ []) (after : List Token.Kind) :
    ∃ k ks, argKinds args ++ after = k :: ks ∧ Grammar.opensExpr k = true := by
  obtain ⟨a, more, rfl⟩ := List.exists_cons_of_ne_nil nonempty
  obtain ⟨k, ks, kinds, opens⟩ := a.kinds_opens
  cases more with
  | nil => exact ⟨k, ks ++ after, by simp [argKinds, kinds], opens⟩
  | cons a' more =>
    exact ⟨k, ks ++ .comma :: (argKinds (a' :: more) ++ after), by simp [argKinds, kinds], opens⟩

/-- The printed text of a statement starts with a token that closes no list of statements. -/
theorem Stmt.kinds_opens (s : Stmt) :
    ∃ k ks, s.kinds = k :: ks ∧ k ≠ .rbrace ∧ k ≠ .eof := by
  cases s with
  | bind name value => exact ⟨_, _, rfl, by decide, by decide⟩
  | ret value => cases value <;> exact ⟨_, _, rfl, by decide, by decide⟩
  | expr e =>
    obtain ⟨k, ks, kinds, opens⟩ := e.kinds_opens
    refine ⟨k, ks, kinds, ?_, ?_⟩ <;> rintro rfl <;> exact absurd opens (by decide)

theorem Parser.Valid.view_advance_of_rest {p : Parser} (valid : p.Valid) {ts : List Token.Kind}
    (ahead : p.rest = ts) (more : ts ≠ []) : p.advance.view = ts := by
  rw [valid.view_advance fun ended => more (ahead ▸ Parser.rest_of_eof ended), ahead]

/-- Past a part read in full from `p` with tokens still after it, the parser moves on to them,
with fewer tokens left than at `p`. -/
theorem Parser.Reach.past {p r : Parser} {ts : List Token.Kind} (reach : Reach p r)
    (ends : r.rest = ts) (more : ts ≠ []) : r.advance.view = ts ∧ r.advance.left < p.left := by
  have moved := reach.valid.left_advance fun ended => more (ends ▸ Parser.rest_of_eof ended)
  have fewer := reach.left_le
  exact ⟨reach.valid.view_advance_of_rest ends more, by omega⟩

/-- With a printed statement in view and more text after it, the parser is on a token that closes
no block and ends no input, with tokens still to come. -/
theorem Stmt.cur_of_view {s : Stmt} {p : Parser} {after : List Token.Kind}
    (view : p.view = s.kinds ++ after) (more : after ≠ []) :
    p.cur.kind ≠ .rbrace ∧ p.cur.kind ≠ .eof ∧ 1 ≤ p.left := by
  obtain ⟨k, ks, kinds, notClose, real⟩ := s.kinds_opens
  rw [kinds, List.cons_append] at view
  obtain ⟨first, ahead⟩ := Parser.view_cons view
  have pending := List.length_pos_of_ne_nil more
  refine ⟨first ▸ notClose, first ▸ real, ?_⟩
  rw [Parser.left, ahead, List.length_append]
  omega

namespace Parse

open Monkey.Parser

/-! ## Runs that return with no error -/

/-- From `p`, the step returns `a` with no error recorded, and `stop` gives `after` at the state it
ends in. -/
def Yields {α : Type} (x : ParseM α) (p : Parser) (stop : Parser → List Token.Kind) (a : α)
    (after : List Token.Kind) : Prop :=
  ∃ q, x.run p = .ok a q ∧ Reach p q ∧ q.errors = p.errors ∧ stop q = after

section Yields

variable {α β : Type} {stop stop' : Parser → List Token.Kind} {after mid : List Token.Kind}

theorem Yields.of_run {x y : ParseM α} {p q : Parser} {a : α} (run : x.run p = y.run q)
    (reach : Reach p q) (errors : q.errors = p.errors) (yields : Yields y q stop a after) :
    Yields x p stop a after := by
  obtain ⟨r, run', reach', clean, ends⟩ := yields
  exact ⟨r, run.trans run', reach.trans reach', clean.trans errors, ends⟩

theorem Yields.bind {x : ParseM α} {k : α → ParseM β} {p : Parser} {a : α} {b : β}
    (first : Yields x p stop a mid)
    (second : ∀ q, Reach p q → q.errors = p.errors → stop q = mid →
      Yields (k a) q stop' b after) :
    Yields (x >>= k) p stop' b after := by
  obtain ⟨q, run, reach, clean, ends⟩ := first
  exact (second q reach clean ends).of_run (run_bind_ok run) reach clean

theorem Yields.pure {p : Parser} (valid : p.Valid) (a : α) (ends : stop p = after) :
    Yields (Pure.pure a : ParseM α) p stop a after :=
  ⟨p, rfl, Reach.refl valid, rfl, ends⟩

theorem Yields.look_bind {x : ParseM β} {k : β → ParseM α} {p : Parser} {c : β} {a : α}
    (valid : p.Valid) (looks : x.run p = .ok c p) (yields : Yields (k c) p stop a after) :
    Yields (x >>= k) p stop a after :=
  yields.of_run (run_bind_ok looks) (Reach.refl valid) rfl

theorem Yields.next_bind {k : Unit → ParseM α} {p : Parser} {a : α} (valid : p.Valid)
    (yields : Yields (k ()) p.advance stop a after) : Yields (next >>= k) p stop a after :=
  yields.of_run (run_bind_ok (next_run p)) (Reach.advance valid) (errors_advance p)

/-- An expectation met by the token after the current one moves onto it. -/
theorem expectNext_bind_run {want : Wanted} {k : Token.Kind} {ts : List Token.Kind}
    {after' : Bool → ParseM α} {p : Parser} (valid : p.Valid) (ahead : p.rest = k :: ts)
    (wanted : want.accepts k = true) :
    (expectNext want >>= after').run p = (after' true).run p.advance := by
  have peek : want.accepts p.peek.kind = true := by rw [(valid.step ahead).1, wanted]
  simp [expectNext, peek, EStateM.run_bind]

theorem Yields.expectNext_bind {want : Wanted} {k : Token.Kind} {ts : List Token.Kind}
    {after' : Bool → ParseM α} {p : Parser} {a : α} (valid : p.Valid) (ahead : p.rest = k :: ts)
    (wanted : want.accepts k = true) (accepted : Yields (after' true) p.advance stop a after) :
    Yields (expectNext want >>= after') p stop a after :=
  accepted.of_run (expectNext_bind_run valid ahead wanted) (Reach.advance valid) (errors_advance p)

theorem Yields.tryCatch {x : ParseM α} {handler : Halt → ParseM α} {p : Parser} {a : α}
    (yields : Yields x p stop a after) : Yields (tryCatch x handler) p stop a after := by
  obtain ⟨q, run, reach, clean, ends⟩ := yields
  exact ⟨q, by rw [EStateM.run_tryCatch, run], reach, clean, ends⟩

theorem Follows.yields {x : ParseM α} {p : Parser} {input : List Token.Kind}
    {G : List Token.Kind → α → List Token.Kind → Prop} {a : α}
    (follows : Follows x p stop input G)
    (derives : G input a after) : Yields x p stop a after := by
  obtain ⟨q, run, clean, ends⟩ := follows.complete a after derives
  exact ⟨q, run, follows.reach_ok run, clean, ends⟩

end Yields

theorem expect_accepts (k : Token.Kind) : (Wanted.token k).accepts k = true := by
  simp [Wanted.accepts]

/-! ## The operator loop -/

/-- What may follow an expression read at binding strength `min`: a token that ends the operator
loop there and carries no conditional on. -/
def StopsAt (min : Nat) (after : List Token.Kind) : Prop :=
  ∀ k ∈ after.head?, k ≠ .kwElse ∧ (k == .semicolon || decide (k.precedence ≤ min)) = true

theorem StopsAt.peek {min : Nat} {after : List Token.Kind} {q : Parser} (stops : StopsAt min after)
    (valid : q.Valid) (ends : q.rest = after) :
    (q.peek.kind == .semicolon || decide (q.peek.kind.precedence ≤ min)) = true := by
  rcases valid.rest_cases with ended | ⟨ts, ahead⟩
  · rw [valid.peek_kind, ended]
    simp [Token.Kind.precedence]
  · exact (stops q.peek.kind (by simp [← ends, ahead])).2

theorem StopsAt.no_else {min : Nat} {after : List Token.Kind} (stops : StopsAt min after) :
    after.head? ≠ some .kwElse :=
  fun head => (stops .kwElse (by simp [head])).1 rfl

theorem StopsAt.of_loose {k : Token.Kind} (loose : k.precedence = 0) (notElse : k ≠ .kwElse)
    (min : Nat) (after : List Token.Kind) : StopsAt min (k :: after) := by
  simp [StopsAt, loose, notElse]

theorem StopsAt.rparen (min : Nat) (after : List Token.Kind) : StopsAt min (.rparen :: after) :=
  .of_loose rfl (by decide) min after

theorem StopsAt.semicolon (min : Nat) (after : List Token.Kind) :
    StopsAt min (.semicolon :: after) := by
  simp [StopsAt]

theorem StopsAt.of_closes {min : Nat} {after : List Token.Kind} (closes : Grammar.Closes after) :
    StopsAt min after := by
  intro k mem
  obtain ⟨zero, noElse, -⟩ := closes k mem
  simp [noElse, zero]

theorem operators_stops {b opened min : Nat} {left : Expr} (fuel : Nat) {q : Parser}
    (stops : (q.peek.kind == .semicolon || decide (q.peek.kind.precedence ≤ min)) = true) :
    (operators b opened min left fuel).run q = .ok left q := by
  cases fuel with
  | zero => rw [operators.eq_1]; rfl
  | succ fuel =>
    rw [operators.eq_2, run_bind_ok (upcoming_run q)]
    simp [stops]

theorem operators_call_run {b opened min : Nat} {left : Expr} (fuel : Nat) {q : Parser}
    (call : q.peek.kind = .lparen) (small : min ≤ 5) :
    (operators b opened min left (fuel + 1)).run q =
      (callArgs b opened left >>= fun e => operators b opened min e fuel).run q.advance := by
  have binds : ¬ Token.Kind.lparen.precedence ≤ min := by
    simp only [Token.Kind.precedence]
    omega
  rw [operators.eq_2, run_bind_ok (upcoming_run q)]
  simp [call, binds, EStateM.run_bind]

theorem operators_binop_run {b opened min : Nat} {left : Expr} (fuel : Nat) {q : Parser}
    {op : BinOp} (spells : q.peek.kind = op.kind) (binds : min < op.kind.precedence) :
    (operators b opened min left (fuel + 1)).run q =
      (expression b opened op.kind.precedence >>= fun r =>
        operators b opened min (.binop op left r) fuel).run q.advance.advance := by
  have tighter : ¬ op.kind.precedence ≤ min := by omega
  have notEnd : op.kind ≠ .semicolon ∧ op.kind ≠ .lparen := by
    cases op <;> simp [BinOp.kind]
  rw [operators.eq_2, run_bind_ok (upcoming_run q)]
  simp [spells, tighter, notEnd, op.binOp?_kind, EStateM.run_bind]

/-! ## Calls read by the operator loop -/

/-- From `q`, the operator loop over `h` runs as the loop over `e` from `q'`: on the way it reads
calls, one round each, and fuel that covers the tokens left at `q` covers those left at `q'`. -/
def CallRounds (b opened min : Nat) (h : Expr) (q : Parser) (e : Expr) (q' : Parser) : Prop :=
  ∀ fuel, q.left ≤ fuel → ∃ fuel', q'.left ≤ fuel' ∧
    (operators b opened min h fuel).run q = (operators b opened min e fuel').run q'

section CallRounds

variable {b opened min : Nat} {h e e' : Expr} {q q' q'' : Parser}

theorem CallRounds.refl (b opened min : Nat) (e : Expr) (q : Parser) :
    CallRounds b opened min e q e q :=
  fun fuel enough => ⟨fuel, enough, rfl⟩

theorem CallRounds.trans (first : CallRounds b opened min h q e q')
    (second : CallRounds b opened min e q' e' q'') : CallRounds b opened min h q e' q'' := by
  intro fuel enough
  obtain ⟨fuel', enough', run⟩ := first fuel enough
  obtain ⟨fuel'', enough'', run'⟩ := second fuel' enough'
  exact ⟨fuel'', enough'', run.trans run'⟩

/-- A `(` after the operand so far is a call of it, read in one round. -/
theorem CallRounds.call (call : q.peek.kind = .lparen) (small : min ≤ 5)
    (run : (callArgs b opened h).run q.advance = .ok e q') (fewer : q'.left < q.left) :
    CallRounds b opened min h q e q' := by
  intro fuel enough
  obtain ⟨fuel, rfl⟩ : ∃ f, fuel = f + 1 := ⟨fuel - 1, by omega⟩
  refine ⟨fuel, by omega, ?_⟩
  rw [operators_call_run fuel call small, run_bind_ok run]

end CallRounds

/-- From `p`, `operand` reads the head of `e`, and after it the operator loop reads the calls that
complete `e`, leaving `after`. -/
def ReadsOperand (b opened : Nat) (p : Parser) (e : Expr) (after : List Token.Kind) : Prop :=
  ∃ h q₁, (operand b opened).run p = .ok h q₁ ∧ Reach p q₁ ∧ q₁.errors = p.errors ∧
    ∃ q, Reach q₁ q ∧ q.errors = p.errors ∧ q.rest = after ∧
      ∀ min, min ≤ 5 → CallRounds b opened min h q₁ e q

/-- From every state whose view starts with the printed text of `e`, with a budget one short of
`e`'s nesting, `operand` and the operator loop read `e`. -/
def OperandReads (e : Expr) : Prop :=
  ∀ {b opened : Nat} {p : Parser} {after : List Token.Kind}, p.Valid →
    p.view = e.kinds ++ after → after.head? ≠ some .kwElse → e.nesting ≤ b + 1 →
      ReadsOperand b opened p e after

/-- Past the `(` that the printed text of the operation `e` opens with, `expression` reads `e` up
to its `)`. -/
def ReadsInner (b opened : Nat) (e : Expr) : Prop :=
  ∀ (q : Parser) (after : List Token.Kind), q.Valid → q.view = e.kinds ++ after →
    Yields (expression b opened 0) q.advance rest e (.rparen :: after)

/-- `argsFrom` reads the printed arguments `args` up to the `)` after them. -/
def ReadsArgs (b opened : Nat) (args : List Expr) : Prop :=
  ∀ (acc : Array Expr) (fuel : Nat) (q : Parser) (after : List Token.Kind), q.Valid →
    q.view = argKinds args ++ .rparen :: after → q.left ≤ fuel → 0 < fuel →
    Yields (argsFrom b opened acc fuel) q rest (acc.toList ++ args) (.rparen :: after)

/-- `blockFrom` reads the printed statements `ss` up to the `}` after them, which it leaves in
view. -/
def ReadsStatements (b opened : Nat) (ss : List Stmt) : Prop :=
  ∀ (acc : Array Stmt) (fuel : Nat) (q : Parser) (after : List Token.Kind), q.Valid →
    q.view = stmtsKinds ss ++ .rbrace :: after → q.left ≤ fuel →
    Yields (blockFrom b opened acc fuel) q view (acc.toList ++ ss) (.rbrace :: after)

/-- `block` reads the printed block of `ss`, from its `{` through its `}`. -/
def ReadsBlock (b opened : Nat) (ss : List Stmt) : Prop :=
  ∀ (q : Parser) (after : List Token.Kind), q.Valid →
    q.view = .lbrace :: (stmtsKinds ss ++ .rbrace :: after) →
      Yields (block b opened) q rest ss after

/-- What `conditional` reads after its first block, given the kind of the token after it: an
`else` and its block, or nothing. -/
def elseTail (b opened : Nat) (test : Expr) (t : List Stmt) (k : Token.Kind) : ParseM Expr := do
  if k == .kwElse then
    next
    unless ← expectNext (.token .lbrace) do fail
    let elseBlock ← block b opened
    return .cond test t (some elseBlock)
  return .cond test t none

section Reading

variable {b opened : Nat} {p : Parser} {e : Expr} {after : List Token.Kind}

/-! ## Expressions -/

/-- An operand read in full, with no call after it. -/
theorem ReadsOperand.of_yields (yields : Yields (operand b opened) p rest e after) :
    ReadsOperand b opened p e after := by
  obtain ⟨q, run, reach, clean, ends⟩ := yields
  exact ⟨e, q, run, reach, clean, q, Reach.refl reach.valid, clean, ends,
    fun min _ => CallRounds.refl b opened min e q⟩

/-- An expression is its operand with the calls after it, when what follows ends the loop. -/
theorem ReadsOperand.yields {min : Nat} (reads : ReadsOperand b opened p e after)
    (stops : StopsAt min after) (small : min ≤ 5) :
    Yields (expression (b + 1) opened min) p rest e after := by
  obtain ⟨h, q₁, run, reach₁, -, q, reach, clean, ends, calls⟩ := reads
  obtain ⟨fuel, -, loop⟩ := calls min small q₁.rounds (left_le_rounds q₁)
  refine ⟨q, ?_, reach₁.trans reach, clean, ends⟩
  rw [expression.eq_2, run_bind_ok run, run_bind_ok (get_run q₁), loop]
  exact operators_stops fuel (stops.peek reach.valid ends)

/-- The same from every state, for every budget that covers the expression's nesting. -/
theorem OperandReads.expression {min : Nat} (reads : OperandReads e) (valid : p.Valid)
    (view : p.view = e.kinds ++ after) (stops : StopsAt min after) (small : min ≤ 5)
    (budget : e.nesting ≤ b) : Yields (Parse.expression b opened min) p rest e after := by
  obtain ⟨c, rfl⟩ : ∃ c, b = c + 1 := ⟨b - 1, by have := e.one_le_nesting; omega⟩
  exact (reads valid view stops.no_else budget).yields stops small

theorem operand_leaf {k : Token.Kind} (valid : p.Valid) (view : p.view = k :: after)
    (leaf : k.lead = .leaf e) : ReadsOperand b opened p e after := by
  obtain ⟨cur, rest⟩ := view_cons view
  refine ReadsOperand.of_yields ?_
  rw [operand.eq_1]
  refine Yields.look_bind valid (current_run p) ?_
  rw [cur, leaf]
  exact Yields.pure valid e rest

theorem operand_prefixed {op : UnOp} {arg : Expr} (valid : p.Valid)
    (prefixed : p.cur.kind.lead = .prefixed op)
    (argument : Yields (expression b opened unaryPrecedence) p.advance rest arg after) :
    Yields (operand b opened) p rest (.unop op arg) after := by
  rw [operand.eq_1]
  refine Yields.look_bind valid (current_run p) ?_
  rw [prefixed]
  exact Yields.next_bind valid
    (Yields.bind argument fun q reach _ ends => Yields.pure reach.valid _ ends)

/-- A parenthesised operation: its inside, then its `)`. -/
theorem operand_group (valid : p.Valid) (paren : p.cur.kind = .lparen)
    (inner : Yields (expression b opened 0) p.advance rest e (.rparen :: after)) :
    Yields (operand b opened) p rest e after := by
  rw [operand.eq_1]
  refine Yields.look_bind valid (current_run p) ?_
  rw [paren]
  refine Yields.next_bind valid (Yields.bind inner fun q reach _ ends => ?_)
  refine Yields.expectNext_bind reach.valid ends (expect_accepts _) ?_
  exact Yields.pure reach.valid.advance _ (reach.valid.advance_of_rest ends).2.2.1

/-- On `if`, `operand` runs as `conditional`. -/
theorem operand_run_conditional (keyword : p.cur.kind = .kwIf) :
    (operand b opened).run p = (conditional b opened).run p := by
  rw [operand.eq_1, run_bind_ok (current_run p), keyword]
  rfl

/-- On `fn`, `operand` runs as `function`. -/
theorem operand_run_function (keyword : p.cur.kind = .kwFn) :
    (operand b opened).run p = (function b opened).run p := by
  rw [operand.eq_1, run_bind_ok (current_run p), keyword]
  rfl

theorem operand_conditional (valid : p.Valid) (keyword : p.cur.kind = .kwIf)
    (cond : Yields (conditional b opened) p rest e after) :
    Yields (operand b opened) p rest e after :=
  Yields.of_run (operand_run_conditional keyword) (Reach.refl valid) rfl cond

theorem operand_function (valid : p.Valid) (keyword : p.cur.kind = .kwFn)
    (func : Yields (function b opened) p rest e after) :
    Yields (operand b opened) p rest e after :=
  Yields.of_run (operand_run_function keyword) (Reach.refl valid) rfl func

/-- An operation's operand: its parentheses and what they hold. -/
theorem operand_operation (valid : p.Valid) (view : p.view = e.kinds ++ after)
    (operation : e.isOperation = true) (inner : ReadsInner b opened e) :
    ReadsOperand b opened p e after := by
  exact .of_yields (operand_group valid (Expr.cur_of_operation operation view)
    (inner p after valid view))

/-- Past the `(` of a printed prefix operation, the parser is on the operator, and past that the
operand's text is in view. -/
theorem unop_view {op : UnOp} {arg : Expr} {q : Parser} (valid : q.Valid)
    (view : q.view = (Expr.unop op arg).kinds ++ after) :
    q.advance.cur.kind.lead = .prefixed op ∧
      q.advance.advance.view = arg.kinds ++ .rparen :: after := by
  simp only [Expr.kinds, List.cons_append, List.append_assoc, List.nil_append] at view
  obtain ⟨-, ahead⟩ := view_cons view
  obtain ⟨-, onOp, rest₁, -⟩ := valid.advance_of_rest ahead
  exact ⟨by rw [onOp]; cases op <;> rfl, valid.advance.view_advance_of_rest rest₁ (by simp)⟩

/-- Past the `(` of a printed `l op r`, the text of `l`, the operator and the text of `r`. -/
theorem binop_view {op : BinOp} {l r : Expr} {q : Parser} (valid : q.Valid)
    (view : q.view = (Expr.binop op l r).kinds ++ after) :
    q.advance.view = l.kinds ++ op.kind :: (r.kinds ++ .rparen :: after) := by
  simp only [Expr.kinds, List.cons_append, List.append_assoc, List.nil_append] at view
  exact valid.view_advance_of_rest (view_cons view).2 (by simp)

/-- Inside the parentheses of a printed `l op r`, with `l` within the budget, `operand` reads the
head of `l` with no error, and the operator loop over it reads the calls of `l`, then `op`, and
runs on as the right operand read from past `op`. -/
theorem binop_rounds {op : BinOp} {l r : Expr} {c : Nat} (left : OperandReads l) {q : Parser}
    (valid : q.Valid) (view : q.view = (Expr.binop op l r).kinds ++ after)
    (fits : l.nesting ≤ c + 1) :
    ∃ h q₁ q', (operand c opened).run q.advance = .ok h q₁ ∧ Reach q.advance q₁ ∧
      q₁.errors = q.errors ∧ Reach q₁ q' ∧ q'.errors = q.errors ∧ q'.Valid ∧
      q'.view = r.kinds ++ .rparen :: after ∧ ∀ fuel, q₁.left ≤ fuel → ∃ fuel',
        (operators c opened 0 h fuel).run q₁ = (Parse.expression c opened op.kind.precedence >>=
          fun r => operators c opened 0 (.binop op l r) fuel').run q' := by
  obtain ⟨h, q₁, run, reach₁, clean₁, q', reach', clean', ends', calls⟩ :=
    left valid.advance (binop_view valid view) (op.kind_continues _).1 fits
  -- the operator after `l` takes what follows it as its right operand
  have valid' := reach'.valid
  have spells : q'.peek.kind = op.kind := (valid'.step ends').1
  have pending : 1 ≤ q'.left := by simp [Parser.left, ends']
  obtain ⟨-, -, rest₂, -⟩ := valid'.advance_of_rest ends'
  refine ⟨h, q₁, q'.advance.advance, run, reach₁, by rw [clean₁, errors_advance],
    reach'.trans ((Reach.advance valid').trans (Reach.advance valid'.advance)),
    by rw [errors_advance, errors_advance, clean', errors_advance], valid'.advance.advance,
    valid'.advance.view_advance_of_rest rest₂ (by simp), fun fuel enough => ?_⟩
  obtain ⟨fuel', enough', loop⟩ := calls 0 (by decide) fuel enough
  obtain ⟨fuel', rfl⟩ : ∃ f, fuel' = f + 1 := ⟨fuel' - 1, by omega⟩
  exact ⟨fuel', loop.trans (operators_binop_run fuel' spells (by have := op.binds; omega))⟩

theorem unop_inner {op : UnOp} {arg : Expr} (argument : OperandReads arg)
    (fits : arg.nesting + 1 ≤ b) : ReadsInner b opened (.unop op arg) := by
  obtain ⟨c, rfl⟩ : ∃ c, b = c + 1 := ⟨b - 1, by omega⟩
  intro q after valid view
  obtain ⟨prefixed, view₂⟩ := unop_view valid view
  exact (ReadsOperand.of_yields (operand_prefixed valid.advance prefixed
    (argument.expression valid.advance.advance view₂ (StopsAt.rparen _ _) (by decide)
      (by omega)))).yields
    (StopsAt.rparen _ _) (by decide)

theorem binop_inner {op : BinOp} {l r : Expr} (left : OperandReads l) (right : OperandReads r)
    (fitsL : l.nesting ≤ b) (fitsR : r.nesting + 1 ≤ b) :
    ReadsInner b opened (.binop op l r) := by
  obtain ⟨c, rfl⟩ : ∃ c, b = c + 1 := ⟨b - 1, by omega⟩
  intro q after valid view
  obtain ⟨h, q₁, q', run, reach₁, clean₁, reach', clean', valid', view', rounds⟩ :=
    binop_rounds left valid view (by omega)
  obtain ⟨fuel, loop⟩ := rounds q₁.rounds (left_le_rounds q₁)
  have small : op.kind.precedence ≤ 5 := by cases op <;> decide
  obtain ⟨s, runR, reachR, cleanR, endsR⟩ := right.expression valid' view' (StopsAt.rparen _ _)
    small (by omega : r.nesting ≤ c)
  refine ⟨s, ?_, reach₁.trans (reach'.trans reachR), ?_, endsR⟩
  · rw [expression.eq_2, run_bind_ok run, run_bind_ok (get_run q₁), loop, run_bind_ok runR]
    exact operators_stops fuel ((StopsAt.rparen 0 after).peek reachR.valid endsR)
  · rw [cleanR, clean', errors_advance]

/-- A call after an operand: the operand's calls, then one more round for this one. -/
theorem ReadsOperand.call {callee : Expr} {args : List Expr}
    (head : ReadsOperand b opened p callee (.lparen :: (argKinds args ++ .rparen :: after)))
    (call : ∀ q : Parser, q.Valid → q.view = .lparen :: (argKinds args ++ .rparen :: after) →
      Yields (callArgs b opened callee) q rest (.call callee args) after) :
    ReadsOperand b opened p (.call callee args) after := by
  obtain ⟨h, q₁, run, reach₁, clean₁, q, reach, clean, ends, calls⟩ := head
  have valid := reach.valid
  obtain ⟨view₁, -, -, moved⟩ := valid.advance_of_rest ends
  obtain ⟨r, runC, reachC, cleanC, endsC⟩ := call q.advance valid.advance view₁
  have fewer := reachC.left_le
  refine ⟨h, q₁, run, reach₁, clean₁, r, reach.trans ((Reach.advance valid).trans reachC),
    ?_, endsC, fun min small => (calls min small).trans
      (CallRounds.call (valid.step ends).1 small runC (by omega))⟩
  rw [cleanC, errors_advance, clean]

/-- Past the `(` of a call with arguments, `callArgs` runs as `argsFrom` over them, then the `)`. -/
theorem callArgs_run {callee : Expr} {args : List Expr} (valid : p.Valid)
    (view : p.view = .lparen :: (argKinds args ++ .rparen :: after)) (nonempty : args ≠ []) :
    (callArgs b opened callee).run p = ((do
      let args ← argsFrom b opened #[] p.advance.rounds
      if ← expectNext (.token .rparen) then return Expr.call callee args else fail) :
        ParseM Expr).run p.advance := by
  obtain ⟨-, ahead⟩ := view_cons view
  obtain ⟨k, ks, kinds, opens⟩ := argKinds_head nonempty (.rparen :: after)
  -- the first argument starts an expression, so the call is not `()`
  have open_ : ¬ (p.peek.kind == .rparen) = true := by
    rw [valid.peek_kind, ahead, kinds, List.headD_cons, beq_iff_eq]
    rintro rfl
    cases opens
  rw [callArgs.eq_1, run_bind_ok (upcoming_run p), if_neg open_, run_bind_ok (next_run p),
    run_bind_ok (get_run _)]

/-- A round of `argsFrom` over an argument read in full and followed by a comma: it moves past the
comma and goes on with the argument added. -/
theorem argsFrom_step {a : Expr} {acc : Array Expr} {fuel : Nat} {r : Parser}
    (run : (expression b opened 0).run p = .ok a r) (comma : r.peek.kind = .comma) :
    (argsFrom b opened acc (fuel + 1)).run p =
      (argsFrom b opened (acc.push a) fuel).run r.advance.advance := by
  rw [argsFrom.eq_2, run_bind_ok run, run_bind_ok (upcoming_run r), if_pos (by rw [comma]; rfl)]
  rfl

/-- Past the first of several printed arguments, read in full with its comma, `argsFrom` runs on
over the others. -/
theorem argsFrom_past {a a' : Expr} {more : List Expr} {acc : Array Expr} {fuel : Nat} {q : Parser}
    (first : ∀ (q : Parser) (after : List Token.Kind), q.Valid →
      q.view = a.kinds ++ .comma :: after →
        Yields (expression b opened 0) q rest a (.comma :: after))
    (valid : q.Valid) (view : q.view = argKinds (a :: a' :: more) ++ .rparen :: after)
    (enough : q.left ≤ fuel) (pos : 0 < fuel) :
    ∃ r fuel', Reach q r ∧ r.errors = q.errors ∧
      r.view = argKinds (a' :: more) ++ .rparen :: after ∧ r.left ≤ fuel' ∧ 0 < fuel' ∧
        (argsFrom b opened acc fuel).run q = (argsFrom b opened (acc.push a) fuel').run r := by
  simp only [argKinds, List.append_assoc, List.cons_append] at view
  obtain ⟨fuel, rfl⟩ : ∃ f, fuel = f + 1 := ⟨fuel - 1, by omega⟩
  obtain ⟨r, run, reach, clean, ends⟩ := first q _ valid view
  -- past the comma after the first argument come the others
  obtain ⟨-, -, rest₁, moved⟩ := reach.valid.advance_of_rest ends
  obtain ⟨view₂, fewer⟩ := (Reach.refl reach.valid.advance).past rest₁ (by simp)
  have before := reach.left_le
  exact ⟨r.advance.advance, fuel,
    reach.trans ((Reach.advance reach.valid).trans (Reach.advance reach.valid.advance)),
    by rw [errors_advance, errors_advance, clean], view₂, by omega, by omega,
    argsFrom_step run (reach.valid.step ends).1⟩

theorem argsFrom_cons {a a' : Expr} {more : List Expr}
    (first : ∀ (q : Parser) (after : List Token.Kind), q.Valid →
      q.view = a.kinds ++ .comma :: after →
        Yields (expression b opened 0) q rest a (.comma :: after))
    (rest : ReadsArgs b opened (a' :: more)) : ReadsArgs b opened (a :: a' :: more) := by
  intro acc fuel q after valid view enough pos
  obtain ⟨r, fuel', reach, clean, view₂, enough', pos', run⟩ :=
    argsFrom_past first valid view enough pos
  have read := rest (acc.push a) fuel' r after reach.valid view₂ enough' pos'
  rw [show (acc.push a).toList ++ a' :: more = acc.toList ++ a :: a' :: more by simp] at read
  exact read.of_run run reach clean

theorem callArgs_reads {callee : Expr} {args : List Expr} (valid : p.Valid)
    (view : p.view = .lparen :: (argKinds args ++ .rparen :: after))
    (arguments : args ≠ [] → ReadsArgs b opened args) :
    Yields (callArgs b opened callee) p rest (.call callee args) after := by
  obtain ⟨paren, ahead⟩ := view_cons view
  cases args with
  | nil =>
    -- `()`: no arguments
    have close : (p.peek.kind == .rparen) = true := by rw [(valid.step ahead).1]; rfl
    rw [callArgs.eq_1]
    refine Yields.look_bind valid (upcoming_run p) ?_
    rw [if_pos close]
    exact Yields.next_bind valid
      (Yields.pure valid.advance _ (valid.advance_of_rest ahead).2.2.1)
  | cons a more =>
    have real : p.cur.kind ≠ .eof := by rw [paren]; decide
    have view₁ : p.advance.view = argKinds (a :: more) ++ .rparen :: after := by
      rw [valid.view_advance real, ahead]
    refine Yields.of_run (callArgs_run valid view (List.cons_ne_nil a more)) (Reach.advance valid)
      (errors_advance p) ?_
    refine Yields.bind (arguments (by simp) #[] _ p.advance after valid.advance view₁
      (left_le_rounds _) (Nat.succ_pos _)) fun q reach _ ends => ?_
    refine Yields.expectNext_bind reach.valid ends (expect_accepts _) ?_
    exact Yields.pure reach.valid.advance _ (reach.valid.advance_of_rest ends).2.2.1

/-! ## Blocks, conditionals and function literals -/

theorem block_reads {ss : List Stmt} (statements : ReadsStatements b (opened + 1) ss) :
    ReadsBlock b opened ss := by
  intro q after valid view
  rw [block.eq_1]
  obtain ⟨brace, ahead⟩ := view_cons view
  have view₁ : q.advance.view = stmtsKinds ss ++ .rbrace :: after :=
    valid.view_advance_of_rest ahead (by simp)
  refine Yields.next_bind valid (Yields.look_bind valid.advance (get_run _) ?_)
  refine Yields.bind (statements #[] _ q.advance after valid.advance view₁ (left_le_rounds _))
    fun r reach _ ends => ?_
  refine Yields.look_bind reach.valid (current_run r) ?_
  obtain ⟨closes, rest₁⟩ := view_cons ends
  -- the `}` is there, so nothing is recorded
  have notEnd : (r.cur.kind == .eof) = false := by rw [closes]; rfl
  simp only [notEnd]
  exact Yields.pure reach.valid _ rest₁

/-- `conditional` over `if`, a test read in full, its `)` and `{`: it runs on as `block` from the
`{`, then the rest of the conditional. -/
theorem conditional_run {test : Expr} {mid : List Token.Kind} (valid : p.Valid)
    (view : p.view = .kwIf :: (test.kinds ++ .lbrace :: mid)) (operation : test.isOperation = true)
    (inner : ReadsInner b opened test) :
    ∃ q, Reach p q ∧ q.errors = p.errors ∧ q.view = .lbrace :: mid ∧
      (conditional b opened).run p = (block b opened >>= fun t =>
        upcoming >>= fun tok => elseTail b opened test t tok.kind).run q := by
  obtain ⟨ks, kinds⟩ := Expr.kinds_of_operation operation
  obtain ⟨-, ahead⟩ := view_cons view
  rw [kinds, List.cons_append] at ahead
  have view₁ : p.advance.view = test.kinds ++ .lbrace :: mid := by
    rw [(valid.advance_of_rest ahead).1, kinds, List.cons_append]
  obtain ⟨q, run, reach, clean, ends⟩ := inner _ _ valid.advance view₁
  have valid' := reach.valid
  obtain ⟨-, -, rest₁, -⟩ := valid'.advance_of_rest ends
  refine ⟨q.advance.advance, (Reach.advance valid).trans ((Reach.advance valid.advance).trans
    (reach.trans ((Reach.advance valid').trans (Reach.advance valid'.advance)))),
    by rw [errors_advance, errors_advance, clean, errors_advance, errors_advance],
    (valid'.advance.advance_of_rest rest₁).1, ?_⟩
  rw [conditional.eq_1]
  refine (expectNext_bind_run valid ahead (expect_accepts _)).trans ?_
  refine (run_bind_ok (next_run _)).trans ?_
  refine (run_bind_ok run).trans ?_
  refine (expectNext_bind_run valid' ends (expect_accepts _)).trans ?_
  exact expectNext_bind_run valid'.advance rest₁ (expect_accepts _)

/-- `if`, the test between its parentheses and the first block; `tail` reads what follows it. -/
theorem conditional_reads {test : Expr} {t : List Stmt} {mid : List Token.Kind} (valid : p.Valid)
    (view : p.view = .kwIf :: (test.kinds ++ .lbrace :: (stmtsKinds t ++ .rbrace :: mid)))
    (operation : test.isOperation = true) (inner : ReadsInner b opened test)
    (thenBlock : ReadsBlock b opened t)
    (tail : ∀ r : Parser, r.Valid → r.rest = mid →
      Yields (elseTail b opened test t r.peek.kind) r rest e after) :
    Yields (conditional b opened) p rest e after := by
  obtain ⟨q, reach, clean, view', run⟩ := conditional_run valid view operation inner
  refine Yields.of_run run reach clean
    (Yields.bind (thenBlock q _ reach.valid view') fun r reach' _ ends' => ?_)
  exact Yields.look_bind reach'.valid (upcoming_run r) (tail r reach'.valid ends')

/-- A conditional with no `else`, followed by anything but `else`. -/
theorem else_none_reads {test : Expr} {t : List Stmt} {r : Parser} (valid : r.Valid)
    (ends : r.rest = after) (noElse : after.head? ≠ some .kwElse) :
    Yields (elseTail b opened test t r.peek.kind) r rest (.cond test t none) after := by
  unfold elseTail
  split
  · next isElse =>
    obtain ⟨ts, ahead⟩ := valid.rest_of_peek (beq_iff_eq.1 isElse) (by decide)
    exact absurd (by rw [← ends, ahead]; rfl) noElse
  · exact Yields.pure valid _ ends

/-- After the first block, `else` and `{`: `elseTail` runs on as `block` from the `{`. -/
theorem elseTail_run {test : Expr} {t : List Stmt} {r : Parser} {ts : List Token.Kind}
    (valid : r.Valid) (ends : r.rest = .kwElse :: .lbrace :: ts) :
    r.advance.advance.view = .lbrace :: ts ∧ (elseTail b opened test t r.peek.kind).run r =
      (block b opened >>= fun other => pure (Expr.cond test t (some other))).run
        r.advance.advance := by
  have isElse : (r.peek.kind == .kwElse) = true := by rw [(valid.step ends).1]; rfl
  obtain ⟨-, -, rest₁, -⟩ := valid.advance_of_rest ends
  refine ⟨(valid.advance.advance_of_rest rest₁).1, ?_⟩
  rw [elseTail, if_pos isElse]
  refine (run_bind_ok (next_run _)).trans ?_
  exact expectNext_bind_run valid.advance rest₁ (expect_accepts _)

theorem else_some_reads {test : Expr} {t other : List Stmt} {r : Parser} (valid : r.Valid)
    (ends : r.rest = .kwElse :: .lbrace :: (stmtsKinds other ++ .rbrace :: after))
    (elseBlock : ReadsBlock b opened other) :
    Yields (elseTail b opened test t r.peek.kind) r rest (.cond test t (some other)) after := by
  obtain ⟨view₂, run⟩ := elseTail_run valid ends
  exact Yields.of_run run ((Reach.advance valid).trans (Reach.advance valid.advance))
    (by simp only [errors_advance]) (Yields.bind (elseBlock _ _ valid.advance.advance view₂)
      fun s reach _ ends' => Yields.pure reach.valid _ ends')

/-- `fn`, its parameters and `{`: `function` runs on as `block` from the `{`. -/
theorem function_run {ps : List String} {body : List Stmt} (valid : p.Valid)
    (view : p.view = (Expr.func ps body).kinds ++ after) :
    ∃ q, Reach p q ∧ q.errors = p.errors ∧
      q.view = .lbrace :: (stmtsKinds body ++ .rbrace :: after) ∧ (function b opened).run p =
        (block b opened >>= fun body => pure (Expr.func ps body)).run q := by
  simp only [Expr.kinds, List.cons_append, List.append_assoc, List.nil_append] at view
  obtain ⟨-, ahead⟩ := view_cons view
  obtain ⟨-, paren, rest₁, -⟩ := valid.advance_of_rest ahead
  obtain ⟨q, run, reach, clean, ends⟩ :
      Yields params p.advance rest ps (.lbrace :: (stmtsKinds body ++ .rbrace :: after)) :=
    (params_follows _ valid.advance (by rw [paren]; decide)).yields
      (by rw [rest₁]; exact Grammar.params_reads ps)
  refine ⟨q.advance, (Reach.advance valid).trans (reach.trans (Reach.advance reach.valid)),
    by rw [errors_advance, clean, errors_advance], (reach.valid.advance_of_rest ends).1, ?_⟩
  rw [function.eq_1]
  refine (expectNext_bind_run valid ahead (expect_accepts _)).trans ?_
  refine (run_bind_ok run).trans ?_
  exact expectNext_bind_run reach.valid ends (expect_accepts _)

theorem function_reads {ps : List String} {body : List Stmt} (valid : p.Valid)
    (view : p.view = (Expr.func ps body).kinds ++ after) (block : ReadsBlock b opened body) :
    Yields (function b opened) p rest (.func ps body) after := by
  obtain ⟨q, reach, clean, view', run⟩ := function_run valid view
  exact Yields.of_run run reach clean
    (Yields.bind (block q after reach.valid view') fun r reach' _ ends' =>
      Yields.pure reach'.valid _ ends')

/-! ## Statements and their lists -/

theorem statementBody_of_opens {k : Token.Kind} (opens : Grammar.opensExpr k = true) :
    statementBody b opened k = (do
      let e ← expression b opened 0
      if (← upcoming).kind == .semicolon then next
      return some (.expr e)) := by
  cases k <;> first | exact absurd opens (by decide) | rfl

theorem statement_of_body {o : Option Stmt} (valid : p.Valid)
    (body : Yields (statementBody b opened p.cur.kind) p rest o after) :
    Yields (statement b opened) p rest o after :=
  body.tryCatch.of_run (statement_run b opened p) (Reach.refl valid) rfl

/-- `let`, a name and `=`: `letStatement` runs on as the value and the `;` after it. -/
theorem let_run {name : String} {ts : List Token.Kind} (valid : p.Valid)
    (view : p.view = .kwLet :: .ident name :: .assign :: ts) (more : ts ≠ []) :
    ∃ q, Reach p q ∧ q.errors = p.errors ∧ q.view = ts ∧ (letStatement b opened).run p = ((do
      let v ← expression b opened 0
      if (← upcoming).kind == .semicolon then next
      return some (Stmt.bind name v)) : ParseM (Option Stmt)).run q := by
  obtain ⟨-, ahead⟩ := view_cons view
  obtain ⟨-, named, rest₁, -⟩ := valid.advance_of_rest ahead
  obtain ⟨-, -, rest₂, -⟩ := valid.advance.advance_of_rest rest₁
  refine ⟨p.advance.advance.advance,
    (Reach.advance valid).trans ((Reach.advance valid.advance).trans
      (Reach.advance valid.advance.advance)), by simp only [errors_advance],
    valid.advance.advance.view_advance_of_rest rest₂ more, ?_⟩
  rw [letStatement.eq_1, ← identName_of named]
  refine (expectNext_bind_run valid ahead rfl).trans ?_
  refine (run_bind_ok (current_run _)).trans ?_
  refine (expectNext_bind_run valid.advance rest₁ (expect_accepts _)).trans ?_
  exact run_bind_ok (next_run _)

theorem let_reads {name : String} {value : Expr} (valid : p.Valid)
    (view : p.view = (Stmt.bind name value).kinds ++ after)
    (reads : ∀ q : Parser, q.Valid → q.view = value.kinds ++ .semicolon :: after →
      Yields (expression b opened 0) q rest value (.semicolon :: after)) :
    Yields (statement b opened) p rest (some (.bind name value)) after := by
  simp only [Stmt.kinds, List.cons_append, List.append_assoc, List.nil_append] at view
  refine statement_of_body valid ?_
  rw [(view_cons view).1]
  show Yields (letStatement b opened) p rest _ after
  obtain ⟨q, reach, clean, view', run⟩ := let_run valid view (by simp)
  refine Yields.of_run run reach clean
    (Yields.bind (reads q reach.valid view') fun r reach' _ ends => ?_)
  exact Yields.look_bind reach'.valid (upcoming_run r)
    ((semicolon_follows reach'.valid).yields ⟨rfl, by rw [ends]; rfl⟩)

theorem return_none_reads (valid : p.Valid) (view : p.view = (Stmt.ret none).kinds ++ after) :
    Yields (statement b opened) p rest (some (.ret none)) after := by
  simp only [Stmt.kinds, List.cons_append, List.nil_append] at view
  obtain ⟨keyword, ahead⟩ := view_cons view
  refine statement_of_body valid ?_
  rw [keyword]
  show Yields (returnStatement b opened) p rest _ after
  rw [returnStatement.eq_1]
  have semi : p.peek.kind = .semicolon := (valid.step ahead).1
  refine Yields.look_bind valid (upcoming_run p) ?_
  split
  · exact (semicolon_follows valid).yields ⟨rfl, by rw [ahead]; rfl⟩
  · next goesOn => exact absurd (by simp [semi]) goesOn

/-- `return` and a value: `returnStatement` runs on as the value, what follows it up to the end
of the statement, and the `;`. -/
theorem return_run {value : Expr} {ts : List Token.Kind} (valid : p.Valid)
    (view : p.view = .kwReturn :: (value.kinds ++ ts)) :
    ∃ q, Reach p q ∧ q.errors = p.errors ∧ q.view = value.kinds ++ ts ∧
      (returnStatement b opened).run p = ((do
        let v ← expression b opened 0
        skipAll fun r => r.peek.kind != .semicolon && r.peek.kind != .rbrace && r.peek.kind != .eof
        if (← upcoming).kind == .semicolon then next
        return some (Stmt.ret (some v))) : ParseM (Option Stmt)).run q := by
  obtain ⟨keyword, ahead⟩ := view_cons view
  obtain ⟨k, ks, kinds, opens⟩ := value.kinds_opens
  have first : p.peek.kind = k := by rw [valid.peek_kind, ahead, kinds]; rfl
  -- the value's first token starts an expression, so it ends no `return`
  have goesOn :
      ¬ (p.peek.kind == .semicolon || p.peek.kind == .rbrace || p.peek.kind == .eof) = true := by
    intro ends
    have ends : Grammar.endsReturn k = true := by rw [← first]; exact ends
    exact absurd opens (by rw [Grammar.opensExpr_of_endsReturn ends]; decide)
  have real : p.cur.kind ≠ .eof := by rw [keyword]; decide
  refine ⟨p.advance, Reach.advance valid, errors_advance p,
    by rw [valid.view_advance real, ahead], ?_⟩
  rw [returnStatement.eq_1, run_bind_ok (upcoming_run p), if_neg goesOn]
  exact run_bind_ok (next_run p)

theorem return_value_reads {value : Expr} (valid : p.Valid)
    (view : p.view = (Stmt.ret (some value)).kinds ++ after)
    (reads : ∀ q : Parser, q.Valid → q.view = value.kinds ++ .semicolon :: after →
      Yields (expression b opened 0) q rest value (.semicolon :: after)) :
    Yields (statement b opened) p rest (some (.ret (some value))) after := by
  simp only [Stmt.kinds, List.cons_append, List.append_assoc, List.nil_append] at view
  refine statement_of_body valid ?_
  rw [(view_cons view).1]
  show Yields (returnStatement b opened) p rest _ after
  obtain ⟨q, reach, clean, view', run⟩ := return_run valid view
  refine Yields.of_run run reach clean
    (Yields.bind (reads q reach.valid view') fun r reach' _ ends => ?_)
  refine Yields.bind ((skipAll_follows r reach'.valid).yields (a := ()) (by rw [ends]))
    fun s reach'' _ ends' => ?_
  exact Yields.look_bind reach''.valid (upcoming_run s)
    ((semicolon_follows reach''.valid).yields ⟨rfl, by rw [ends']; rfl⟩)

theorem expr_statement_reads (valid : p.Valid) (view : p.view = e.kinds ++ after)
    (closes : Grammar.Closes after) (reads : Yields (expression b opened 0) p rest e after) :
    Yields (statement b opened) p rest (some (.expr e)) after := by
  obtain ⟨k, ks, kinds, opens⟩ := e.kinds_opens
  have first : p.cur.kind = k := by
    rw [view_eq_cons, kinds] at view
    exact (List.cons.inj view).1
  refine statement_of_body valid ?_
  rw [first, statementBody_of_opens opens]
  refine Yields.bind reads fun q reach _ ends => ?_
  refine Yields.look_bind reach.valid (upcoming_run q)
    ((semicolon_follows reach.valid).yields ⟨rfl, ?_⟩)
  rw [ends, Grammar.dropSemicolon_of_head fun head => (closes .semicolon (by simp [head])).2.2 rfl]

/-- After an expression statement comes the next statement, which does not start with `(`, or the
token that closes the list. -/
theorem closes_next {s : Stmt} {more : List Stmt} (stands : more.head?.all s.standsBefore = true)
    {close : Token.Kind} (closer : close = .rbrace ∨ close = .eof) (after : List Token.Kind) :
    ∀ e, s = .expr e → Grammar.Closes (stmtsKinds more ++ close :: after) := by
  rintro e rfl
  cases more with
  | nil => exact Grammar.closes_cons closer after
  | cons t more =>
    simp only [stmtsKinds, List.append_assoc]
    exact Grammar.stmt_kinds_closes (by simpa using stands) _

theorem blockFrom_nil : ReadsStatements b opened [] := by
  intro acc fuel q after valid view _
  rw [List.append_nil]
  cases fuel with
  | zero =>
    rw [blockFrom.eq_1]
    exact Yields.pure valid _ view
  | succ fuel =>
    rw [blockFrom.eq_2]
    refine Yields.look_bind valid (current_run q) ?_
    split
    · exact Yields.pure valid _ view
    · next open_ => exact absurd (by simp [(view_cons view).1]) open_

/-- A round of `blockFrom` over a statement read in full: it moves past the statement's last token
and goes on with the statement added. -/
theorem blockFrom_step {s : Stmt} {acc : Array Stmt} {fuel : Nat} {r : Parser}
    (notClose : p.cur.kind ≠ .rbrace) (real : p.cur.kind ≠ .eof)
    (run : (statement b opened).run p = .ok (some s) r) :
    (blockFrom b opened acc (fuel + 1)).run p =
      (blockFrom b opened (acc.push s) fuel).run r.advance := by
  rw [blockFrom.eq_2, run_bind_ok (current_run p), if_neg (by simp [notClose, real]),
    run_bind_ok run]
  rfl

/-- Past the first of the printed statements, read in full, `blockFrom` runs on over the others. -/
theorem blockFrom_past {s : Stmt} {more : List Stmt} {acc : Array Stmt} {fuel : Nat} {q : Parser}
    (statement : ∀ (q : Parser) (after : List Token.Kind), q.Valid →
      q.view = s.kinds ++ after → (∀ e, s = .expr e → Grammar.Closes after) →
        Yields (Parse.statement b opened) q rest (some s) after)
    (stands : more.head?.all s.standsBefore = true) (valid : q.Valid)
    (view : q.view = stmtsKinds (s :: more) ++ .rbrace :: after) (enough : q.left ≤ fuel) :
    ∃ r fuel', Reach q r ∧ r.errors = q.errors ∧ r.view = stmtsKinds more ++ .rbrace :: after ∧
      r.left ≤ fuel' ∧
        (blockFrom b opened acc fuel).run q = (blockFrom b opened (acc.push s) fuel').run r := by
  simp only [stmtsKinds, List.append_assoc] at view
  obtain ⟨notClose, real, pending⟩ := Stmt.cur_of_view view (by simp)
  obtain ⟨fuel, rfl⟩ : ∃ f, fuel = f + 1 := ⟨fuel - 1, by omega⟩
  obtain ⟨r, run, reach, clean, ends⟩ :=
    statement q _ valid view (closes_next stands (.inl rfl) after)
  obtain ⟨view₁, fewer⟩ := reach.past ends (by simp)
  exact ⟨r.advance, fuel, reach.trans (Reach.advance reach.valid), by rw [errors_advance, clean],
    view₁, by omega, blockFrom_step notClose real run⟩

theorem blockFrom_cons {s : Stmt} {more : List Stmt}
    (statement : ∀ (q : Parser) (after : List Token.Kind), q.Valid →
      q.view = s.kinds ++ after → (∀ e, s = .expr e → Grammar.Closes after) →
        Yields (Parse.statement b opened) q rest (some s) after)
    (stands : more.head?.all s.standsBefore = true) (rest : ReadsStatements b opened more) :
    ReadsStatements b opened (s :: more) := by
  intro acc fuel q after valid view enough
  obtain ⟨r, fuel', reach, clean, view₁, enough', run⟩ :=
    blockFrom_past statement stands valid view enough
  have read := rest (acc.push s) fuel' r after reach.valid view₁ enough'
  rw [show (acc.push s).toList ++ more = acc.toList ++ s :: more by simp] at read
  exact read.of_run run reach clean

end Reading

/-! ## Printed trees -/

mutual

/-- The printed text of every reprintable expression reads back through `operand` and the calls
after it. -/
theorem operand_reads : (e : Expr) → e.reprintable = true → OperandReads e
  | .ident name, _ => fun valid view _ _ => operand_leaf valid view rfl
  | .int v, _ => fun valid view _ _ => operand_leaf valid view rfl
  | .bool true, _ => fun valid view _ _ => operand_leaf valid view rfl
  | .bool false, _ => fun valid view _ _ => operand_leaf valid view rfl
  | .unop op arg, reprintable => fun valid view _ fits => by
    simp only [Expr.reprintable] at reprintable
    simp only [Expr.nesting] at fits
    exact operand_operation valid view rfl (unop_inner (operand_reads arg reprintable) (by omega))
  | .binop op l r, reprintable => fun valid view _ fits => by
    simp only [Expr.reprintable, Bool.and_eq_true] at reprintable
    simp only [Expr.nesting] at fits
    exact operand_operation valid view rfl (binop_inner (operand_reads l reprintable.1)
      (operand_reads r reprintable.2) (by omega) (by omega))
  | .cond test t none, reprintable => fun valid view noElse fits => by
    simp only [Expr.reprintable, Bool.and_eq_true] at reprintable
    simp only [Expr.nesting] at fits
    simp only [Expr.kinds, List.cons_append, List.append_assoc, List.nil_append] at view
    exact .of_yields (operand_conditional valid (view_cons view).1 (conditional_reads valid view
      reprintable.1.1 (inner_reads test reprintable.1.1 reprintable.1.2 (by omega))
      (block_reads (blockFrom_reads t reprintable.2 (by omega)))
      fun r valid' ends => else_none_reads valid' ends noElse))
  | .cond test t (some other), reprintable => fun valid view _ fits => by
    simp only [Expr.reprintable, Bool.and_eq_true] at reprintable
    simp only [Expr.nesting] at fits
    simp only [Expr.kinds, List.cons_append, List.append_assoc, List.nil_append] at view
    exact .of_yields (operand_conditional valid (view_cons view).1 (conditional_reads valid view
      reprintable.1.1.1 (inner_reads test reprintable.1.1.1 reprintable.1.1.2 (by omega))
      (block_reads (blockFrom_reads t reprintable.1.2 (by omega)))
      fun r valid' ends => else_some_reads valid' ends
        (block_reads (blockFrom_reads other reprintable.2 (by omega)))))
  | .func ps body, reprintable => fun valid view _ fits => by
    simp only [Expr.reprintable] at reprintable
    simp only [Expr.nesting] at fits
    exact .of_yields (operand_function valid (view_cons view).1
      (function_reads valid view (block_reads (blockFrom_reads body reprintable (by omega)))))
  | .call callee args, reprintable => fun valid view _ fits => by
    simp only [Expr.reprintable, Bool.and_eq_true] at reprintable
    simp only [Expr.nesting] at fits
    simp only [Expr.kinds, List.cons_append, List.append_assoc, List.nil_append] at view
    exact ReadsOperand.call (operand_reads callee reprintable.1 valid view (by simp) (by omega))
      fun q valid' view' => callArgs_reads valid' view'
        fun nonempty => argsFrom_reads args nonempty reprintable.2 (by omega)

/-- Past its `(`, the printed text of a reprintable operation reads back as the operation. -/
theorem inner_reads : (e : Expr) → e.isOperation = true → e.reprintable = true →
    ∀ {b opened : Nat}, e.nesting ≤ b + 1 → ReadsInner b opened e
  | .unop op arg, _, reprintable => fun fits => by
    simp only [Expr.reprintable] at reprintable
    simp only [Expr.nesting] at fits
    exact unop_inner (operand_reads arg reprintable) (by omega)
  | .binop op l r, _, reprintable => fun fits => by
    simp only [Expr.reprintable, Bool.and_eq_true] at reprintable
    simp only [Expr.nesting] at fits
    exact binop_inner (operand_reads l reprintable.1) (operand_reads r reprintable.2) (by omega)
      (by omega)
  | .ident _, operation, _ | .int _, operation, _ | .bool _, operation, _ | .cond .., operation, _
  | .func .., operation, _ | .call .., operation, _ => by simp [Expr.isOperation] at operation

/-- Printed arguments read back through `argsFrom`. -/
theorem argsFrom_reads : (args : List Expr) → args ≠ [] → argsReprintable args = true →
    ∀ {b opened : Nat}, argsNesting args ≤ b → ReadsArgs b opened args
  | [], nonempty, _ => absurd rfl nonempty
  | [a], _, reprintable => fun fits acc fuel q after valid view _ pos => by
    simp only [argsReprintable, Bool.and_true] at reprintable
    simp only [argsNesting] at fits
    obtain ⟨fuel, rfl⟩ : ∃ f, fuel = f + 1 := ⟨fuel - 1, by omega⟩
    rw [argsFrom.eq_2, show acc.toList ++ [a] = (acc.push a).toList by simp]
    refine Yields.bind (OperandReads.expression (operand_reads a reprintable) valid view
      (StopsAt.rparen 0 after) (by decide) (by omega)) fun r reach _ ends => ?_
    refine Yields.look_bind reach.valid (upcoming_run r) ?_
    split
    · next comma => exact absurd comma (by rw [(reach.valid.step ends).1]; decide)
    · exact Yields.pure reach.valid _ ends
  | a :: a' :: more, _, reprintable => fun fits => by
    rw [argsReprintable, Bool.and_eq_true] at reprintable
    rw [argsNesting] at fits
    exact argsFrom_cons (fun q after valid view => OperandReads.expression
      (operand_reads a reprintable.1) valid view (.of_loose rfl (by decide) 0 _) (by decide)
      (by omega)) (argsFrom_reads (a' :: more) (by simp) reprintable.2 (by omega))

/-- A printed statement reads back through `statement`, ending on its last token. -/
theorem statement_reads : (s : Stmt) → s.reprintable = true →
    ∀ {b opened : Nat} {p : Parser} {after : List Token.Kind}, p.Valid →
      p.view = s.kinds ++ after → (∀ e, s = .expr e → Grammar.Closes after) →
        s.nesting ≤ b → Yields (statement b opened) p rest (some s) after
  | .bind name value, reprintable => fun valid view _ fits =>
    let_reads valid view fun q valid' view' =>
      OperandReads.expression (operand_reads value reprintable) valid' view'
        (StopsAt.semicolon 0 _) (by decide) fits
  | .ret none, _ => fun valid view _ _ => return_none_reads valid view
  | .ret (some value), reprintable => fun valid view _ fits =>
    return_value_reads valid view fun q valid' view' =>
      OperandReads.expression (operand_reads value reprintable) valid' view' (StopsAt.semicolon 0 _)
        (by decide) fits
  | .expr e, reprintable => fun valid view closes fits =>
    expr_statement_reads valid view (closes e rfl)
      (OperandReads.expression (operand_reads e reprintable) valid view
        (StopsAt.of_closes (closes e rfl)) (by decide) fits)

/-- Printed statements read back through `blockFrom`. -/
theorem blockFrom_reads : (ss : List Stmt) → stmtsReprintable ss = true →
    ∀ {b opened : Nat}, stmtsNesting ss ≤ b → ReadsStatements b opened ss
  | [], _ => fun _ => blockFrom_nil
  | s :: more, reprintable => fun fits => by
    simp only [stmtsReprintable, Bool.and_eq_true] at reprintable
    simp only [stmtsNesting] at fits
    exact blockFrom_cons (fun q after valid view closes =>
      statement_reads s reprintable.1.1 valid view closes (by omega)) reprintable.1.2
      (blockFrom_reads more reprintable.2 (by omega))

end

/-! ## Programs -/

/-- After a statement, with no lexical error to stop at, the top level moves past its last token
and reads on. -/
theorem afterStatement_run {acc : Array Stmt} {fuel : Nat} {q : Parser} (valid : q.Valid) :
    (afterStatement acc fuel).run q = (program acc fuel).run q.advance := by
  rw [afterStatement, run_bind_ok (get_run q), if_neg (by simp [valid.noLexError])]
  exact run_bind_ok (next_run q)

/-- A statement read in full is kept by the top level. -/
theorem topStatement_reads {s : Stmt} {p : Parser} {after : List Token.Kind} (acc : Array Stmt)
    (reads : Yields (statement p.limit 0) p rest (some s) after) :
    Yields (topStatement p.limit acc) p rest (acc.push s) after :=
  Yields.tryCatch (Yields.bind reads fun _ reach _ ends => Yields.pure reach.valid _ ends)

/-- The top level reads printed statements back, one round each, up to the end of input, when
none of them nests deeper than the limit. -/
theorem program_reads {ss : List Stmt} (reprintable : stmtsReprintable ss = true) :
    ∀ (acc : Array Stmt) (fuel : Nat) (p : Parser), p.Valid →
      p.view = stmtsKinds ss ++ [.eof] → p.left ≤ fuel → stmtsNesting ss ≤ p.limit →
        Yields (program acc fuel) p view (acc.toList ++ ss) [.eof] := by
  induction ss with
  | nil =>
    intro acc fuel p valid view _ _
    rw [List.append_nil]
    exact ⟨p, program_at_end acc fuel (view_cons view).1, Reach.refl valid, rfl, view⟩
  | cons s more ih =>
    intro acc fuel p valid view enough fits
    simp only [stmtsReprintable, Bool.and_eq_true] at reprintable
    simp only [stmtsNesting] at fits
    simp only [stmtsKinds, List.append_assoc] at view
    obtain ⟨-, real, pending⟩ := Stmt.cur_of_view view (by simp)
    obtain ⟨fuel, rfl⟩ : ∃ f, fuel = f + 1 := ⟨fuel - 1, by omega⟩
    -- the statement is read whole, so the halts the top level catches never come
    obtain ⟨q, run, reach, clean, ends⟩ := topStatement_reads acc (statement_reads s
      reprintable.1.1 valid view (closes_next reprintable.1.2 (.inr rfl) [])
      (by omega : s.nesting ≤ p.limit))
    obtain ⟨view₁, fewer⟩ := reach.past ends (by simp)
    have read := ih reprintable.2 (acc.push s) fuel q.advance reach.valid.advance view₁ (by omega)
      (by rw [limit_advance, reach.limit]; omega)
    rw [show (acc.push s).toList ++ more = acc.toList ++ s :: more by simp] at read
    refine read.of_run ?_ (reach.trans (Reach.advance reach.valid)) (by rw [errors_advance, clean])
    rw [program_round acc fuel real, run_bind_ok run, afterStatement_run reach.valid]

end Parse

open Text (bytes)

open Monkey.Parser in
/-- The parse of the printed text of a parsed program starts in a valid state with the printed
kinds in view and no error, and ends as the top level does from there. -/
theorem parseWith_render_run {limit : Nat} {src : List UInt8} {prog : Program}
    (parsed : Program.parseWith limit src = .ok prog) :
    ∃ p : Parser, p.Valid ∧ p.view = prog.kinds ++ [.eof] ∧ p.errors = #[] ∧ p.limit = limit ∧
      ∀ stmts q, (Parse.program #[] p.rounds).run p = .ok stmts q →
        Program.parseWith limit (bytes prog.render) = q.finish stmts := by
  -- the parser only builds names and literals that the scanner reads back
  have printable : ∀ k ∈ prog.kinds, k.scannable := by
    have all := parseWith_scannable parsed
    rw [← stmtsKinds_all] at all
    exact List.all_eq_true.1 all
  obtain ⟨ts, last, scanned, kinds⟩ := scan_render prog printable
  have real := Token.scan_real scanned
  have ended := (Token.scanFrom_reads scanned).2
  refine ⟨Parser.ofScan (ts, .ok last) limit, ofScan_valid limit real ended,
    by rw [view_ofScan limit real ended, kinds], errors_ofScan _ _, limit_ofScan _ _,
    fun stmts q run => ?_⟩
  unfold Program.parseWith
  rw [scanned]
  dsimp only
  rw [run]

open Monkey.Parser in
/-- Printing a parsed program and parsing the text gives the program back, when every conditional
in it tests an operation, no expression statement in it is followed by a statement that starts
with `(`, and the parser nests no deeper than the nesting limit to read the text. -/
theorem parseWith_render_of_fits {limit : Nat} {src : List UInt8} {prog : Program}
    (parsed : Program.parseWith limit src = .ok prog) (reprintable : prog.reprintable)
    (fits : prog.nesting ≤ limit) :
    Program.parseWith limit (bytes prog.render) = .ok prog := by
  obtain ⟨p, valid, view, errors, limited, ends⟩ := parseWith_render_run parsed
  obtain ⟨q, run, reach, clean, -⟩ := Parse.program_reads reprintable #[] p.rounds p valid view
    (left_le_rounds p) (by rw [limited]; exact fits)
  rw [ends _ _ run]
  exact (finish_ok_iff reach.valid).2 ⟨by rw [clean, errors], by simp⟩

end Monkey
