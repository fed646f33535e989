import Monkey.Proofs.PrintedNesting
import Monkey.Proofs.MissingNodes

/-!
# Printed programs read back exactly within the nesting limit

`Monkey.Proofs.PrintedNesting` reads the printed text of a reprintable program back as the program
when its nesting is within the limit. Past the limit it does not. Following the parser down the
printed text towards the deepest expression, it reads in full every part before that one and
comes to `expression` with no budget left, which records the nesting error and gives up the
statement (`Abandons`); the top level keeps that error, so the parse fails. A parsed reprintable
program therefore reads back from its printed text exactly when its nesting is within the limit
(`parseWith_render`).

Each reading lemma has a counterpart here that takes the readings of the parts before the one
past the budget and the giving up of that one; both go through the same runs of the parse
functions (`conditional_run`, `let_run` and the like). One mutual recursion over the tree
(`operand_too_deep`) puts them together, choosing at each node the first part past the budget.

Without the conditions of `Program.reprintable` the round trip need not hold:
`render_joins_statements` is two statements that print as one call.
-/

set_option autoImplicit false
set_option relaxedAutoImplicit false

namespace Monkey

namespace Parse

open Monkey.Parser

/-! ## Runs that give up their statement -/

/-- From `p`, the step gives up the whole statement, with an error recorded since `p`. -/
def Abandons {α : Type} (x : ParseM α) (p : Parser) : Prop :=
  ∃ o q, x.run p = .error (.abandoned o) q ∧ Reach p q ∧ p.errors.size < q.errors.size

section Abandons

variable {α β : Type} {p : Parser}

theorem Abandons.of_run {x y : ParseM α} {q : Parser} (run : x.run p = y.run q)
    (reach : Reach p q) (errors : q.errors = p.errors) (abandons : Abandons y q) :
    Abandons x p := by
  obtain ⟨o, r, run', reach', more⟩ := abandons
  exact ⟨o, r, run.trans run', reach.trans reach', by rw [← errors]; exact more⟩

/-- A step that gives up takes the rest of its statement with it. -/
theorem Abandons.bind_left {x : ParseM α} {k : α → ParseM β} (abandons : Abandons x p) :
    Abandons (x >>= k) p := by
  obtain ⟨o, q, run, reach, more⟩ := abandons
  exact ⟨o, q, run_bind_error run, reach, more⟩

theorem Abandons.bind {x : ParseM α} {k : α → ParseM β} {stop : Parser → List Token.Kind}
    {a : α} {mid : List Token.Kind} (first : Yields x p stop a mid)
    (second : ∀ q, Reach p q → q.errors = p.errors → stop q = mid → Abandons (k a) q) :
    Abandons (x >>= k) p := by
  obtain ⟨q, run, reach, clean, ends⟩ := first
  exact (second q reach clean ends).of_run (run_bind_ok run) reach clean

theorem Abandons.look_bind {x : ParseM β} {k : β → ParseM α} {c : β} (valid : p.Valid)
    (looks : x.run p = .ok c p) (abandons : Abandons (k c) p) : Abandons (x >>= k) p :=
  abandons.of_run (run_bind_ok looks) (Reach.refl valid) rfl

theorem Abandons.next_bind {k : Unit → ParseM α} (valid : p.Valid)
    (abandons : Abandons (k ()) p.advance) : Abandons (next >>= k) p :=
  abandons.of_run (run_bind_ok (next_run p)) (Reach.advance valid) (errors_advance p)

/-- With no budget left, `expression` records the nesting error and gives up the statement. -/
theorem expression_zero_abandons (opened min : Nat) (valid : p.Valid) :
    Abandons (expression 0 opened min) p := by
  refine ⟨opened, { p with errors := p.errors.push ⟨p.cur, .tooDeep p.limit⟩ }, ?_,
    record_moves p.cur (.tooDeep p.limit) p valid, by simp⟩
  rw [expression.eq_1]
  rfl

end Abandons

/-! ## Expressions past the budget -/

/-- From `p`, reading an expression at budget `b + 1` gives up its statement: `operand` does, or
it gives back the head of the expression with no error, and every run of the operator loop over
that head, with fuel for the tokens left, does. -/
def AbandonsOperand (b opened min : Nat) (p : Parser) : Prop :=
  Abandons (operand b opened) p ∨ ∃ h q₁, (operand b opened).run p = .ok h q₁ ∧ Reach p q₁ ∧
    q₁.errors = p.errors ∧ ∀ fuel, q₁.left ≤ fuel → Abandons (operators b opened min h fuel) q₁

/-- From every state whose view starts with the printed text of `e`, at a budget two or more short
of `e`'s nesting, reading `e` gives up its statement. -/
def OperandTooDeep (e : Expr) : Prop :=
  ∀ (b opened : Nat) (p : Parser) (after : List Token.Kind), p.Valid →
    p.view = e.kinds ++ after → b + 1 < e.nesting → ∀ min, min ≤ 5 → AbandonsOperand b opened min p

/-- Past the `(` that the printed text of the operation `e` opens with, `expression` gives up its
statement. -/
def InnerTooDeep (b opened : Nat) (e : Expr) : Prop :=
  ∀ (q : Parser) (after : List Token.Kind), q.Valid → q.view = e.kinds ++ after →
    Abandons (expression b opened 0) q.advance

/-- `argsFrom` gives up its statement on the printed arguments `args`. -/
def ArgsTooDeep (b opened : Nat) (args : List Expr) : Prop :=
  ∀ (acc : Array Expr) (fuel : Nat) (q : Parser) (after : List Token.Kind), q.Valid →
    q.view = argKinds args ++ .rparen :: after → q.left ≤ fuel → 0 < fuel →
      Abandons (argsFrom b opened acc fuel) q

/-- `blockFrom` gives up its statement on the printed statements `ss`. -/
def StatementsTooDeep (b opened : Nat) (ss : List Stmt) : Prop :=
  ∀ (acc : Array Stmt) (fuel : Nat) (q : Parser) (after : List Token.Kind), q.Valid →
    q.view = stmtsKinds ss ++ .rbrace :: after → q.left ≤ fuel →
      Abandons (blockFrom b opened acc fuel) q

/-- `block` gives up its statement on the printed block of `ss`. -/
def BlockTooDeep (b opened : Nat) (ss : List Stmt) : Prop :=
  ∀ (q : Parser) (after : List Token.Kind), q.Valid →
    q.view = .lbrace :: (stmtsKinds ss ++ .rbrace :: after) → Abandons (block b opened) q

section TooDeep

variable {b opened : Nat} {p : Parser} {e : Expr} {after : List Token.Kind}

theorem AbandonsOperand.abandons {min : Nat} (abandons : AbandonsOperand b opened min p) :
    Abandons (Parse.expression (b + 1) opened min) p := by
  rcases abandons with inOperand | ⟨h, q₁, run, reach, clean, loop⟩
  · rw [Parse.expression.eq_2]
    exact inOperand.bind_left
  · refine (loop q₁.rounds (left_le_rounds q₁)).of_run ?_ reach clean
    rw [Parse.expression.eq_2, run_bind_ok run, run_bind_ok (get_run q₁)]

/-- Reading `e` at any budget short of its nesting gives up the statement. -/
theorem OperandTooDeep.abandons {min : Nat} (deep : OperandTooDeep e) (valid : p.Valid)
    (view : p.view = e.kinds ++ after) (small : min ≤ 5) (beyond : b < e.nesting) :
    Abandons (Parse.expression b opened min) p := by
  cases b with
  | zero => exact expression_zero_abandons opened min valid
  | succ c => exact (deep c opened p after valid view beyond min small).abandons

/-- An operation's operand gives up its statement when what its parentheses hold does. -/
theorem operand_operation_abandons (valid : p.Valid) (view : p.view = e.kinds ++ after)
    (operation : e.isOperation = true) (inner : InnerTooDeep b opened e) :
    Abandons (operand b opened) p := by
  obtain ⟨o, q, run, reach, more⟩ := inner p after valid view
  exact ⟨o, q, operand_group_halts (Expr.cur_of_operation operation view) run,
    (Reach.advance valid).trans reach, by rwa [errors_advance] at more⟩

theorem unop_inner_abandons {op : UnOp} {arg : Expr} (argument : OperandTooDeep arg)
    (beyond : b < arg.nesting + 1) : InnerTooDeep b opened (.unop op arg) := by
  intro q after valid view
  cases b with
  | zero => exact expression_zero_abandons opened 0 valid.advance
  | succ c =>
    -- the operator's operand is read one level further down
    obtain ⟨prefixed, view₂⟩ := unop_view valid view
    refine AbandonsOperand.abandons (Or.inl ?_)
    rw [operand.eq_1]
    refine Abandons.look_bind valid.advance (current_run _) ?_
    rw [prefixed]
    exact Abandons.next_bind valid.advance
      (argument.abandons valid.advance.advance view₂ (by decide) (by omega)).bind_left

theorem binop_inner_abandons {op : BinOp} {l r : Expr} (leftDeep : OperandTooDeep l)
    (left : OperandReads l) (rightDeep : OperandTooDeep r)
    (beyond : b < max l.nesting (r.nesting + 1)) :
    InnerTooDeep b opened (.binop op l r) := by
  intro q after valid view
  cases b with
  | zero => exact expression_zero_abandons opened 0 valid.advance
  | succ c =>
    refine AbandonsOperand.abandons ?_
    by_cases deepLeft : c + 1 < l.nesting
    · exact leftDeep c opened q.advance _ valid.advance (binop_view valid view) deepLeft 0
        (by decide)
    · -- `l` is read in full, and the right operand is past the budget
      obtain ⟨h, q₁, q', run, reach₁, clean₁, reach', clean', valid', view', rounds⟩ :=
        binop_rounds left valid view (by omega : l.nesting ≤ c + 1)
      refine Or.inr ⟨h, q₁, run, reach₁, by rw [clean₁, errors_advance], fun fuel enough => ?_⟩
      obtain ⟨fuel', loop⟩ := rounds fuel enough
      have small : op.kind.precedence ≤ 5 := by cases op <;> decide
      exact Abandons.of_run loop reach' (by rw [clean', clean₁])
        (rightDeep.abandons valid' view' small (by omega : c < r.nesting)).bind_left

/-- A call whose arguments give up their statement, after a callee read in full. -/
theorem AbandonsOperand.call {callee : Expr} {args : List Expr} {min : Nat}
    (head : ReadsOperand b opened p callee (.lparen :: (argKinds args ++ .rparen :: after)))
    (call : ∀ q : Parser, q.Valid → q.view = .lparen :: (argKinds args ++ .rparen :: after) →
      Abandons (callArgs b opened callee) q) (small : min ≤ 5) :
    AbandonsOperand b opened min p := by
  obtain ⟨h, q₁, run, reach₁, clean₁, q, reach, clean, ends, calls⟩ := head
  have valid := reach.valid
  obtain ⟨view₁, -, -, -⟩ := valid.advance_of_rest ends
  refine Or.inr ⟨h, q₁, run, reach₁, clean₁, fun fuel enough => ?_⟩
  -- the loop reads the calls of the callee, then meets the `(` of this one
  obtain ⟨fuel', enough', loop⟩ := calls min small fuel enough
  have pending : 1 ≤ q.left := by simp [Parser.left, ends]
  obtain ⟨fuel', rfl⟩ : ∃ f, fuel' = f + 1 := ⟨fuel' - 1, by omega⟩
  exact Abandons.of_run (loop.trans (operators_call_run fuel' (valid.step ends).1 small))
    (reach.trans (Reach.advance valid)) (by rw [errors_advance, clean, clean₁])
    (call q.advance valid.advance view₁).bind_left

theorem callArgs_abandons {callee : Expr} {args : List Expr} (valid : p.Valid)
    (view : p.view = .lparen :: (argKinds args ++ .rparen :: after)) (nonempty : args ≠ [])
    (arguments : ArgsTooDeep b opened args) : Abandons (callArgs b opened callee) p := by
  obtain ⟨paren, ahead⟩ := view_cons view
  have real : p.cur.kind ≠ .eof := by rw [paren]; decide
  have view₁ : p.advance.view = argKinds args ++ .rparen :: after := by
    rw [valid.view_advance real, ahead]
  exact Abandons.of_run (callArgs_run valid view nonempty) (Reach.advance valid) (errors_advance p)
    (arguments #[] _ p.advance after valid.advance view₁ (left_le_rounds _)
      (Nat.succ_pos _)).bind_left

/-! ## Conditionals, function literals and blocks past the budget -/

theorem conditional_test_abandons {test : Expr} {rest' : List Token.Kind} (valid : p.Valid)
    (view : p.view = .kwIf :: (test.kinds ++ rest')) (operation : test.isOperation = true)
    (inner : InnerTooDeep b opened test) : Abandons (conditional b opened) p := by
  obtain ⟨ks, kinds⟩ := Expr.kinds_of_operation operation
  obtain ⟨-, ahead⟩ := view_cons view
  rw [kinds, List.cons_append] at ahead
  have view₁ : p.advance.view = test.kinds ++ rest' := by
    rw [(valid.advance_of_rest ahead).1, kinds, List.cons_append]
  rw [conditional.eq_1]
  exact Abandons.of_run (expectNext_bind_run valid ahead (expect_accepts _)) (Reach.advance valid)
    (errors_advance p) (Abandons.next_bind valid.advance (inner _ _ valid.advance view₁).bind_left)

theorem conditional_then_abandons {test : Expr} {t : List Stmt} {mid : List Token.Kind}
    (valid : p.Valid)
    (view : p.view = .kwIf :: (test.kinds ++ .lbrace :: (stmtsKinds t ++ .rbrace :: mid)))
    (operation : test.isOperation = true) (inner : ReadsInner b opened test)
    (thenBlock : BlockTooDeep b opened t) : Abandons (conditional b opened) p := by
  obtain ⟨q, reach, clean, view', run⟩ := conditional_run valid view operation inner
  exact Abandons.of_run run reach clean (thenBlock q _ reach.valid view').bind_left

theorem conditional_else_abandons {test : Expr} {t other : List Stmt} (valid : p.Valid)
    (view : p.view = .kwIf :: (test.kinds ++ .lbrace :: (stmtsKinds t ++ .rbrace ::
      (.kwElse :: .lbrace :: (stmtsKinds other ++ .rbrace :: after)))))
    (operation : test.isOperation = true) (inner : ReadsInner b opened test)
    (thenBlock : ReadsBlock b opened t) (elseBlock : BlockTooDeep b opened other) :
    Abandons (conditional b opened) p := by
  obtain ⟨q, reach, clean, view', run⟩ := conditional_run valid view operation inner
  refine Abandons.of_run run reach clean
    (Abandons.bind (thenBlock q _ reach.valid view') fun r reach' _ ends => ?_)
  refine Abandons.look_bind reach'.valid (upcoming_run r) ?_
  obtain ⟨view'', run'⟩ := elseTail_run reach'.valid ends
  exact Abandons.of_run run'
    ((Reach.advance reach'.valid).trans (Reach.advance reach'.valid.advance))
    (by simp only [errors_advance]) (elseBlock _ _ reach'.valid.advance.advance view'').bind_left

theorem function_abandons {ps : List String} {body : List Stmt} (valid : p.Valid)
    (view : p.view = (Expr.func ps body).kinds ++ after) (block : BlockTooDeep b opened body) :
    Abandons (function b opened) p := by
  obtain ⟨q, reach, clean, view', run⟩ := function_run valid view
  exact Abandons.of_run run reach clean (block q after reach.valid view').bind_left

theorem block_abandons {ss : List Stmt} (statements : StatementsTooDeep b (opened + 1) ss) :
    BlockTooDeep b opened ss := by
  intro q after valid view
  obtain ⟨-, ahead⟩ := view_cons view
  have view₁ : q.advance.view = stmtsKinds ss ++ .rbrace :: after :=
    valid.view_advance_of_rest ahead (by simp)
  rw [block.eq_1]
  exact Abandons.next_bind valid (Abandons.look_bind valid.advance (get_run _)
    (statements #[] _ q.advance after valid.advance view₁ (left_le_rounds _)).bind_left)

/-! ## Statements past the budget -/

theorem statement_of_body_abandons (body : Abandons (statementBody b opened p.cur.kind) p) :
    Abandons (statement b opened) p := by
  obtain ⟨o, q, run, reach, more⟩ := body
  refine ⟨o, q, ?_, reach, more⟩
  rw [statement_run, EStateM.run_tryCatch, run]
  rfl

theorem let_abandons {name : String} {value : Expr} (valid : p.Valid)
    (view : p.view = (Stmt.bind name value).kinds ++ after)
    (deep : ∀ q : Parser, q.Valid → q.view = value.kinds ++ .semicolon :: after →
      Abandons (expression b opened 0) q) :
    Abandons (statement b opened) p := by
  simp only [Stmt.kinds, List.cons_append, List.append_assoc, List.nil_append] at view
  refine statement_of_body_abandons ?_
  rw [(view_cons view).1]
  show Abandons (letStatement b opened) p
  obtain ⟨q, reach, clean, view', run⟩ := let_run valid view (by simp)
  exact Abandons.of_run run reach clean (deep q reach.valid view').bind_left

theorem return_abandons {value : Expr} (valid : p.Valid)
    (view : p.view = (Stmt.ret (some value)).kinds ++ after)
    (deep : ∀ q : Parser, q.Valid → q.view = value.kinds ++ .semicolon :: after →
      Abandons (expression b opened 0) q) :
    Abandons (statement b opened) p := by
  simp only [Stmt.kinds, List.cons_append, List.append_assoc, List.nil_append] at view
  refine statement_of_body_abandons ?_
  rw [(view_cons view).1]
  show Abandons (returnStatement b opened) p
  obtain ⟨q, reach, clean, view', run⟩ := return_run valid view
  exact Abandons.of_run run reach clean (deep q reach.valid view').bind_left

theorem expr_statement_abandons (view : p.view = e.kinds ++ after)
    (deep : Abandons (expression b opened 0) p) : Abandons (statement b opened) p := by
  obtain ⟨k, ks, kinds, opens⟩ := e.kinds_opens
  have first : p.cur.kind = k := by
    rw [view_eq_cons, kinds] at view
    exact (List.cons.inj view).1
  refine statement_of_body_abandons ?_
  rw [first, statementBody_of_opens opens]
  exact deep.bind_left

/-- The statement at the head of a block gives up, and the block with it. -/
theorem blockFrom_here_abandons {s : Stmt} {more : List Stmt}
    (statement : ∀ (q : Parser) (after : List Token.Kind), q.Valid → q.view = s.kinds ++ after →
      Abandons (Parse.statement b opened) q) :
    StatementsTooDeep b opened (s :: more) := by
  intro acc fuel q after valid view enough
  simp only [stmtsKinds, List.append_assoc] at view
  obtain ⟨notClose, real, pending⟩ := Stmt.cur_of_view view (by simp)
  obtain ⟨fuel, rfl⟩ : ∃ f, fuel = f + 1 := ⟨fuel - 1, by omega⟩
  rw [blockFrom.eq_2]
  refine Abandons.look_bind valid (current_run q) ?_
  rw [if_neg (by simp [notClose, real])]
  exact (statement q _ valid view).bind_left

/-- The statement at the head of a block is read in full, and a later one gives up. -/
theorem blockFrom_later_abandons {s : Stmt} {more : List Stmt}
    (statement : ∀ (q : Parser) (after : List Token.Kind), q.Valid →
      q.view = s.kinds ++ after → (∀ e, s = .expr e → Grammar.Closes after) →
        Yields (Parse.statement b opened) q rest (some s) after)
    (stands : more.head?.all s.standsBefore = true) (rest : StatementsTooDeep b opened more) :
    StatementsTooDeep b opened (s :: more) := by
  intro acc fuel q after valid view enough
  obtain ⟨r, fuel', reach, clean, view₁, enough', run⟩ :=
    blockFrom_past statement stands valid view enough
  exact Abandons.of_run run reach clean (rest (acc.push s) fuel' r after reach.valid view₁ enough')

/-- The argument at the head of a call's arguments is read in full, and a later one gives up. -/
theorem argsFrom_later_abandons {a a' : Expr} {more : List Expr}
    (first : ∀ (q : Parser) (after : List Token.Kind), q.Valid →
      q.view = a.kinds ++ .comma :: after →
        Yields (expression b opened 0) q rest a (.comma :: after))
    (rest : ArgsTooDeep b opened (a' :: more)) : ArgsTooDeep b opened (a :: a' :: more) := by
  intro acc fuel q after valid view enough pos
  obtain ⟨r, fuel', reach, clean, view₂, enough', pos', run⟩ :=
    argsFrom_past first valid view enough pos
  exact Abandons.of_run run reach clean
    (rest (acc.push a) fuel' r after reach.valid view₂ enough' pos')

end TooDeep

/-! ## Printed trees past the budget -/

mutual

/-- The printed text of every reprintable expression, read at a budget two or more short of its
nesting, gives up its statement. -/
theorem operand_too_deep : (e : Expr) → e.reprintable = true → OperandTooDeep e
  | .ident _, _ | .int _, _ | .bool _, _ => fun _ _ _ _ _ _ beyond =>
    absurd beyond (by simp [Expr.nesting])
  | .unop op arg, reprintable => fun b opened p after valid view beyond _ _ => by
    simp only [Expr.reprintable] at reprintable
    simp only [Expr.nesting] at beyond
    exact Or.inl (operand_operation_abandons valid view rfl
      (unop_inner_abandons (operand_too_deep arg reprintable) (by omega)))
  | .binop op l r, reprintable => fun b opened p after valid view beyond _ _ => by
    simp only [Expr.reprintable, Bool.and_eq_true] at reprintable
    simp only [Expr.nesting] at beyond
    exact Or.inl (operand_operation_abandons valid view rfl
      (binop_inner_abandons (operand_too_deep l reprintable.1) (operand_reads l reprintable.1)
        (operand_too_deep r reprintable.2) (by omega)))
  | .cond test t none, reprintable => fun b opened p after valid view beyond _ _ => by
    simp only [Expr.reprintable, Bool.and_eq_true] at reprintable
    simp only [Expr.nesting] at beyond
    simp only [Expr.kinds, List.cons_append, List.append_assoc, List.nil_append] at view
    refine Or.inl (Abandons.of_run (operand_run_conditional (view_cons view).1) (Reach.refl valid)
      rfl ?_)
    -- the test comes first; only when it fits is the block read
    by_cases deepTest : b + 1 < test.nesting
    · exact conditional_test_abandons valid view reprintable.1.1
        (inner_too_deep test reprintable.1.1 reprintable.1.2 b opened deepTest)
    · exact conditional_then_abandons valid view reprintable.1.1
        (inner_reads test reprintable.1.1 reprintable.1.2 (by omega))
        (block_abandons (blockFrom_too_deep t reprintable.2 b (opened + 1) (by omega)))
  | .cond test t (some other), reprintable => fun b opened p after valid view beyond _ _ => by
    simp only [Expr.reprintable, Bool.and_eq_true] at reprintable
    simp only [Expr.nesting] at beyond
    simp only [Expr.kinds, List.cons_append, List.append_assoc, List.nil_append] at view
    refine Or.inl (Abandons.of_run (operand_run_conditional (view_cons view).1) (Reach.refl valid)
      rfl ?_)
    by_cases deepTest : b + 1 < test.nesting
    · exact conditional_test_abandons valid view reprintable.1.1.1
        (inner_too_deep test reprintable.1.1.1 reprintable.1.1.2 b opened deepTest)
    have inner : ReadsInner b opened test :=
      inner_reads test reprintable.1.1.1 reprintable.1.1.2 (by omega)
    by_cases deepThen : b < stmtsNesting t
    · exact conditional_then_abandons valid view reprintable.1.1.1 inner
        (block_abandons (blockFrom_too_deep t reprintable.1.2 b (opened + 1) deepThen))
    · exact conditional_else_abandons valid view reprintable.1.1.1 inner
        (block_reads (blockFrom_reads t reprintable.1.2 (by omega)))
        (block_abandons (blockFrom_too_deep other reprintable.2 b (opened + 1) (by omega)))
  | .func ps body, reprintable => fun b opened p after valid view beyond _ _ => by
    simp only [Expr.reprintable] at reprintable
    simp only [Expr.nesting] at beyond
    exact Or.inl (Abandons.of_run (operand_run_function (view_cons view).1) (Reach.refl valid) rfl
      (function_abandons valid view
        (block_abandons (blockFrom_too_deep body reprintable b (opened + 1) (by omega)))))
  | .call callee args, reprintable => fun b opened p after valid view beyond min small => by
    simp only [Expr.reprintable, Bool.and_eq_true] at reprintable
    simp only [Expr.nesting] at beyond
    simp only [Expr.kinds, List.cons_append, List.append_assoc, List.nil_append] at view
    -- the callee comes first; only when it fits are the arguments read
    by_cases deepCallee : b + 1 < callee.nesting
    · exact operand_too_deep callee reprintable.1 b opened p _ valid view deepCallee min small
    · have nonempty : args ≠ [] := by
        rintro rfl
        simp only [argsNesting] at beyond
        omega
      exact AbandonsOperand.call
        (operand_reads callee reprintable.1 valid view (by simp) (by omega))
        (fun q valid' view' => callArgs_abandons valid' view' nonempty
          (args_too_deep args reprintable.2 b opened (by omega)))
        small

/-- Past its `(`, the printed text of a reprintable operation, read at a budget two or more short
of its nesting, gives up its statement. -/
theorem inner_too_deep : (e : Expr) → e.isOperation = true → e.reprintable = true →
    ∀ (b opened : Nat), b + 1 < e.nesting → InnerTooDeep b opened e
  | .unop op arg, _, reprintable => fun b opened beyond => by
    simp only [Expr.reprintable] at reprintable
    simp only [Expr.nesting] at beyond
    exact unop_inner_abandons (operand_too_deep arg reprintable) (by omega)
  | .binop op l r, _, reprintable => fun b opened beyond => by
    simp only [Expr.reprintable, Bool.and_eq_true] at reprintable
    simp only [Expr.nesting] at beyond
    exact binop_inner_abandons (operand_too_deep l reprintable.1) (operand_reads l reprintable.1)
      (operand_too_deep r reprintable.2) (by omega)
  | .ident _, operation, _ | .int _, operation, _ | .bool _, operation, _ | .cond .., operation, _
  | .func .., operation, _ | .call .., operation, _ => by simp [Expr.isOperation] at operation

/-- Printed arguments past the budget give up their statement in `argsFrom`. -/
theorem args_too_deep : (args : List Expr) → argsReprintable args = true →
    ∀ (b opened : Nat), b < argsNesting args → ArgsTooDeep b opened args
  | [], _ => fun _ _ beyond => absurd beyond (by simp [argsNesting])
  | [a], reprintable => fun b opened beyond acc fuel q after valid view _ pos => by
    simp only [argsReprintable, Bool.and_true] at reprintable
    simp only [argsNesting] at beyond
    obtain ⟨fuel, rfl⟩ : ∃ f, fuel = f + 1 := ⟨fuel - 1, by omega⟩
    rw [argsFrom.eq_2]
    exact ((operand_too_deep a reprintable).abandons valid view (by decide) (by omega)).bind_left
  | a :: a' :: more, reprintable => fun b opened beyond => by
    rw [argsReprintable, Bool.and_eq_true] at reprintable
    rw [argsNesting] at beyond
    -- the first argument comes first; only when it fits are the others read
    by_cases deep : b < a.nesting
    · intro acc fuel q after valid view enough pos
      simp only [argKinds, List.append_assoc, List.cons_append] at view
      obtain ⟨fuel, rfl⟩ : ∃ f, fuel = f + 1 := ⟨fuel - 1, by omega⟩
      rw [argsFrom.eq_2]
      exact ((operand_too_deep a reprintable.1).abandons valid view (by decide) deep).bind_left
    · exact argsFrom_later_abandons (fun q after valid view => OperandReads.expression
        (operand_reads a reprintable.1) valid view (.of_loose rfl (by decide) 0 _) (by decide)
        (by omega)) (args_too_deep (a' :: more) reprintable.2 b opened (by omega))

/-- A printed statement past the budget gives up in `statement`. -/
theorem statement_too_deep : (s : Stmt) → s.reprintable = true →
    ∀ (b opened : Nat) (p : Parser) (after : List Token.Kind), p.Valid →
      p.view = s.kinds ++ after → b < s.nesting → Abandons (statement b opened) p
  | .bind name value, reprintable => fun b opened p after valid view beyond =>
    let_abandons valid view fun q valid' view' =>
      (operand_too_deep value reprintable).abandons valid' view' (by decide) beyond
  | .ret none, _ => fun _ _ _ _ _ _ beyond => absurd beyond (by simp [Stmt.nesting])
  | .ret (some value), reprintable => fun b opened p after valid view beyond =>
    return_abandons valid view fun q valid' view' =>
      (operand_too_deep value reprintable).abandons valid' view' (by decide) beyond
  | .expr e, reprintable => fun b opened p after valid view beyond =>
    expr_statement_abandons view
      ((operand_too_deep e reprintable).abandons valid view (by decide) beyond)

/-- Printed statements past the budget give up in `blockFrom`. -/
theorem blockFrom_too_deep : (ss : List Stmt) → stmtsReprintable ss = true →
    ∀ (b opened : Nat), b < stmtsNesting ss → StatementsTooDeep b opened ss
  | [], _ => fun _ _ beyond => absurd beyond (by simp [stmtsNesting])
  | s :: more, reprintable => fun b opened beyond => by
    simp only [stmtsReprintable, Bool.and_eq_true] at reprintable
    simp only [stmtsNesting] at beyond
    by_cases deep : b < s.nesting
    · exact blockFrom_here_abandons fun q after valid view =>
        statement_too_deep s reprintable.1.1 b opened q after valid view deep
    · exact blockFrom_later_abandons (fun q after valid view closes =>
        statement_reads s reprintable.1.1 valid view closes (by omega)) reprintable.1.2
        (blockFrom_too_deep more reprintable.2 b opened (by omega))

end

/-! ## Programs past the limit -/

/-- The top level records an error on printed statements one of which nests past the limit: the
statements before it are read in full, and the statement given up leaves its error behind. -/
theorem program_spoils {ss : List Stmt} (reprintable : stmtsReprintable ss = true) :
    ∀ (acc : Array Stmt) (fuel : Nat) (p : Parser), p.Valid →
      p.view = stmtsKinds ss ++ [.eof] → p.left ≤ fuel → p.limit < stmtsNesting ss →
        p.errors.size < (landing ((program acc fuel).run p)).errors.size := by
  induction ss with
  | nil =>
    intro acc fuel p _ _ _ beyond
    simp [stmtsNesting] at beyond
  | cons s more ih =>
    intro acc fuel p valid view enough beyond
    simp only [stmtsReprintable, Bool.and_eq_true] at reprintable
    simp only [stmtsNesting] at beyond
    simp only [stmtsKinds, List.append_assoc] at view
    obtain ⟨-, real, pending⟩ := Stmt.cur_of_view view (by simp)
    obtain ⟨fuel, rfl⟩ : ∃ f, fuel = f + 1 := ⟨fuel - 1, by omega⟩
    by_cases deep : p.limit < s.nesting
    · -- the statement is given up, and what the top level does next only adds errors
      obtain ⟨o, q, run, reach, recorded⟩ :=
        statement_too_deep s reprintable.1.1 p.limit 0 p _ valid view deep
      rw [program_abandoned acc fuel real run]
      have later := Moves.bind (skipGivenUp_moves o q.rounds)
        (fun _ => afterStatement_moves acc fuel) q reach.valid
      exact Nat.lt_of_lt_of_le recorded later.size_le
    · -- the statement is read in full, and the top level goes on past it
      obtain ⟨q, run, reach, clean, ends⟩ := topStatement_reads acc (statement_reads s
        reprintable.1.1 valid view (closes_next reprintable.1.2 (.inr rfl) [])
        (by omega : s.nesting ≤ p.limit))
      obtain ⟨view₁, fewer⟩ := reach.past ends (by simp)
      have spoils := ih reprintable.2 (acc.push s) fuel q.advance reach.valid.advance view₁
        (by omega) (by rw [limit_advance, reach.limit]; omega)
      rw [program_round acc fuel real, run_bind_ok run, afterStatement_run reach.valid]
      rwa [errors_advance, clean] at spoils

end Parse

open Text (bytes)

open Monkey.Parser Monkey.Parse in
/-- Printing a parsed program and parsing the text gives the program back exactly when the parser
nests no deeper than the nesting limit to read the text, provided every conditional in the program
tests an operation and no expression statement in it is followed by a statement that starts
with `(`. -/
theorem parseWith_render {limit : Nat} {src : List UInt8} {prog : Program}
    (parsed : Program.parseWith limit src = .ok prog) (reprintable : prog.reprintable) :
    Program.parseWith limit (bytes prog.render) = .ok prog ↔ prog.nesting ≤ limit := by
  refine ⟨fun reads => ?_, parseWith_render_of_fits parsed reprintable⟩
  by_contra deep
  obtain ⟨p, valid, view, errors, limited, ends⟩ := parseWith_render_run parsed
  obtain ⟨stmts, q, run⟩ := program_returns #[] p.rounds p
  have reach : Reach p q := by
    have moves := program_moves #[] p.rounds p valid
    rwa [run] at moves
  -- past the limit the top level records an error, so the parse does not succeed
  have spoils := program_spoils reprintable #[] p.rounds p valid view (left_le_rounds p)
    (by rw [limited]; exact Nat.lt_of_not_le deep)
  rw [run] at spoils
  rw [ends stmts q run] at reads
  obtain ⟨clean, -⟩ := (finish_ok_iff reach.valid).1 reads
  simp [landing, clean, errors] at spoils

/-- `if (1 < 2) { 3 } else { -4 }` parses to a conditional that tests an operation, and its printed
text parses back to it. -/
theorem parseWith_render_conditional :
    Program.parse [105, 102, 32, 40, 49, 32, 60, 32, 50, 41, 32, 123, 32, 51, 32, 125, 32, 101, 108,
        115, 101, 32, 123, 32, 45, 52, 32, 125] =
        .ok ⟨[.expr (.cond (.binop .lt (.int 1) (.int 2)) [.expr (.int 3)]
          (some [.expr (.unop .neg (.int 4))]))]⟩ ∧
      Program.reprintable ⟨[.expr (.cond (.binop .lt (.int 1) (.int 2)) [.expr (.int 3)]
          (some [.expr (.unop .neg (.int 4))]))]⟩ ∧
      Program.nesting ⟨[.expr (.cond (.binop .lt (.int 1) (.int 2)) [.expr (.int 3)]
          (some [.expr (.unop .neg (.int 4))]))]⟩ ≤ Parser.defaultLimit ∧
      Program.parse (bytes (Program.render ⟨[.expr (.cond (.binop .lt (.int 1) (.int 2))
          [.expr (.int 3)] (some [.expr (.unop .neg (.int 4))]))]⟩)) =
        .ok ⟨[.expr (.cond (.binop .lt (.int 1) (.int 2)) [.expr (.int 3)]
          (some [.expr (.unop .neg (.int 4))]))]⟩ := by
  have scanned : Token.scan [105, 102, 32, 40, 49, 32, 60, 32, 50, 41, 32, 123, 32, 51, 32, 125, 32,
      101, 108, 115, 101, 32, 123, 32, 45, 52, 32, 125] =
      ((Token.scan [105, 102, 32, 40, 49, 32, 60, 32, 50, 41, 32, 123, 32, 51, 32, 125, 32,
        101, 108, 115, 101, 32, 123, 32, 45, 52, 32, 125]).1, .ok ⟨.eof, [], ⟨1, 28⟩⟩) := by
    cbv
  have kinds : (Token.scan [105, 102, 32, 40, 49, 32, 60, 32, 50, 41, 32, 123, 32, 51, 32, 125, 32,
      101, 108, 115, 101, 32, 123, 32, 45, 52, 32, 125]).1.map Token.kind =
      [.kwIf, .lparen, .int 1, .lt, .int 2, .rparen, .lbrace, .int 3, .rbrace, .kwElse, .lbrace,
        .minus, .int 4, .rbrace] := by
    cbv
  have thenBlock : Grammar.Seq .rbrace [.int 3, .rbrace, .kwElse, .lbrace, .minus, .int 4, .rbrace,
      .eof] [.expr (.int 3)] [.rbrace, .kwElse, .lbrace, .minus, .int 4, .rbrace, .eof] :=
    .stmt (.expr (Grammar.level_of_unary (.calls .int (.stop (by simp))) (by decide))) (.stop rfl)
  have elseBlock : Grammar.Seq .rbrace [.minus, .int 4, .rbrace, .eof]
      [.expr (.unop .neg (.int 4))] [.rbrace, .eof] :=
    .stmt (.expr (Grammar.level_of_unary (.neg (.calls .int (.stop (by simp)))) (by decide)))
      (.stop rfl)
  have test : Grammar.Level 1 [.int 1, .lt, .int 2, .rparen, .lbrace, .int 3, .rbrace, .kwElse,
      .lbrace, .minus, .int 4, .rbrace, .eof] (.binop .lt (.int 1) (.int 2))
      [.rparen, .lbrace, .int 3, .rbrace, .kwElse, .lbrace, .minus, .int 4, .rbrace, .eof] :=
    Grammar.level_literals (p := 2) rfl (by decide) rfl _
  have cond : Grammar.Level 1 [.kwIf, .lparen, .int 1, .lt, .int 2, .rparen, .lbrace, .int 3,
      .rbrace, .kwElse, .lbrace, .minus, .int 4, .rbrace, .eof]
      (.cond (.binop .lt (.int 1) (.int 2)) [.expr (.int 3)] (some [.expr (.unop .neg (.int 4))]))
      [.eof] :=
    Grammar.level_of_unary (.calls (.cond test thenBlock (.some elseBlock)) (.stop (by simp)))
      (by decide)
  have parsed : Program.parse [105, 102, 32, 40, 49, 32, 60, 32, 50, 41, 32, 123, 32, 51, 32, 125,
      32, 101, 108, 115, 101, 32, 123, 32, 45, 52, 32, 125] =
      .ok ⟨[.expr (.cond (.binop .lt (.int 1) (.int 2)) [.expr (.int 3)]
        (some [.expr (.unop .neg (.int 4))]))]⟩ := by
    refine parseWith_of_reads scanned ?_ ?_
    · rw [← List.length_map Token.kind, kinds]
      decide
    · rw [kinds]
      simp only [List.cons_append, List.nil_append]
      exact .stmt (.expr cond) (.stop rfl)
  have fits : Program.nesting ⟨[.expr (.cond (.binop .lt (.int 1) (.int 2)) [.expr (.int 3)]
      (some [.expr (.unop .neg (.int 4))]))]⟩ ≤ Parser.defaultLimit := by
    decide
  exact ⟨parsed, rfl, fits, (parseWith_render parsed rfl).2 fits⟩

/-- Without its conditions printing need not read back: `3 + 4; -5 * 5` parses as two statements,
printed on two lines with no `;` between them, and the second one's parentheses then read as a
call of the first. -/
theorem render_joins_statements :
    Program.parse [51, 32, 43, 32, 52, 59, 32, 45, 53, 32, 42, 32, 53] =
        .ok ⟨[.expr (.binop .add (.int 3) (.int 4)),
          .expr (.binop .mul (.unop .neg (.int 5)) (.int 5))]⟩ ∧
      Program.parse (bytes (Program.render ⟨[.expr (.binop .add (.int 3) (.int 4)),
          .expr (.binop .mul (.unop .neg (.int 5)) (.int 5))]⟩)) =
        .ok ⟨[.expr (.call (.binop .add (.int 3) (.int 4))
          [.binop .mul (.unop .neg (.int 5)) (.int 5)])]⟩ := by
  constructor
  · -- `3 + 4; -5 * 5` reads as two statements
    have scanned : Token.scan [51, 32, 43, 32, 52, 59, 32, 45, 53, 32, 42, 32, 53] =
        ((Token.scan [51, 32, 43, 32, 52, 59, 32, 45, 53, 32, 42, 32, 53]).1,
          .ok ⟨.eof, [], ⟨1, 13⟩⟩) := by
      cbv
    have kinds :
        (Token.scan [51, 32, 43, 32, 52, 59, 32, 45, 53, 32, 42, 32, 53]).1.map Token.kind =
        [.int 3, .plus, .int 4, .semicolon, .minus, .int 5, .star, .int 5] := by
      cbv
    refine parseWith_of_reads scanned ?_ ?_
    · rw [← List.length_map Token.kind, kinds]
      decide
    · have product : Grammar.Level 1 [.minus, .int 5, .star, .int 5, .eof]
          (.binop .mul (.unop .neg (.int 5)) (.int 5)) [.eof] :=
        Grammar.level_iff_rise.2 ⟨.unop .neg (.int 5), _, .neg (.calls .int (.stop (by simp))),
          (Grammar.rise_binop_iff (p := 4) rfl (by decide)).2
            ⟨.int 5, _, Grammar.level_of_unary (.calls .int (.stop (by simp))) (by decide),
              Grammar.Rise.refl (Grammar.quiet_of_precedence rfl 1 [])⟩⟩
      rw [kinds]
      simp only [List.cons_append, List.nil_append]
      exact .stmt (.expr (Grammar.level_literals (p := 3) rfl (by decide) rfl _))
        (.stmt (.expr product) (.stop rfl))
  · -- its text reads as one call: the parentheses of the second statement become the call's
    obtain ⟨ts, last, scanned, kinds⟩ := scan_render ⟨[.expr (.binop .add (.int 3) (.int 4)),
      .expr (.binop .mul (.unop .neg (.int 5)) (.int 5))]⟩ (by decide)
    have printed : ts.map Token.kind = [.lparen, .int 3, .plus, .int 4, .rparen, .lparen, .lparen,
        .minus, .int 5, .rparen, .star, .int 5, .rparen] := by
      rw [kinds]
      simp [Program.kinds, stmtsKinds, Stmt.kinds, Expr.kinds, UnOp.kind, BinOp.kind]
    refine parseWith_of_reads scanned ?_ ?_
    · rw [← List.length_map Token.kind, printed]
      decide
    · have negated : Grammar.Level 1 [.minus, .int 5, .rparen, .star, .int 5, .rparen, .eof]
          (.unop .neg (.int 5)) [.rparen, .star, .int 5, .rparen, .eof] :=
        Grammar.level_of_unary (.neg (.calls .int (.stop (by simp)))) (by decide)
      have product :
          Grammar.Level 1 [.lparen, .minus, .int 5, .rparen, .star, .int 5, .rparen, .eof]
          (.binop .mul (.unop .neg (.int 5)) (.int 5)) [.rparen, .eof] :=
        Grammar.level_iff_rise.2
          ⟨.unop .neg (.int 5), _, .calls (.group negated) (.stop (by simp)),
          (Grammar.rise_binop_iff (p := 4) rfl (by decide)).2
            ⟨.int 5, _, Grammar.level_of_unary (.calls .int (.stop (by simp))) (by decide),
              Grammar.Rise.refl (Grammar.quiet_of_precedence rfl 1 _)⟩⟩
      have call : Grammar.Level 1 [.lparen, .int 3, .plus, .int 4, .rparen, .lparen, .lparen,
          .minus, .int 5, .rparen, .star, .int 5, .rparen, .eof]
          (.call (.binop .add (.int 3) (.int 4)) [.binop .mul (.unop .neg (.int 5)) (.int 5)])
          [.eof] :=
        Grammar.level_of_unary
          (.calls (.group (Grammar.level_literals (p := 3) rfl (by decide) rfl _))
            (.call (.some (.last product (by simp))) (.stop (by simp)))) (by decide)
      rw [printed]
      simp only [List.cons_append, List.nil_append]
      exact .stmt (.expr call) (.stop rfl)

end Monkey
