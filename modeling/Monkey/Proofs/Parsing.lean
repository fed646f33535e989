import Monkey.Proofs.Follows

/-!
# Each parse function reads its part of the grammar

`Spec.f` says what the parse function `f` reads from a valid state with enough budget and fuel
for the tokens left: the relation of `Monkey.Proofs.Grammar` it follows. Each step lemma proves
one function's spec from the specs of the calls it makes, walking its body with the rules of
`Follows`; `specs_of_parse` ties them together along the parser's own mutual recursion.

The budget hypotheses are what keeps the nesting limit out of reach: every nested expression
starts after at least one more token, so fewer tokens left than budget means the limit is never
met. Expressions are read through `Operand` and `Cont`, the one-loop view of the precedence levels.
-/

set_option autoImplicit false
set_option relaxedAutoImplicit false

namespace Monkey

namespace Parse

open Monkey.Parser Monkey.Grammar

/-! ## Tokens as the parser classifies them -/

theorem infixAt_precedence {k : Token.Kind} {op : BinOp} (spells : k.binOp? = some op) :
    infixAt k.precedence k = some op := by
  cases k <;> cases spells <;> rfl

theorem precedence_of_infixAt {m : Nat} {k : Token.Kind} {op : BinOp}
    (spells : infixAt m k = some op) : k.precedence = m := by
  unfold infixAt at spells
  split at spells <;> first | rfl | cases spells

theorem binOp?_of_precedence {k : Token.Kind} (binds : 0 < k.precedence) (notCall : k ≠ .lparen) :
    ∃ op, k.binOp? = some op := by
  cases k <;> first | exact ⟨_, rfl⟩ | exact absurd rfl notCall | cases binds

theorem quiet_of_stops {k : Token.Kind} {min : Nat} (small : min ≤ 5)
    (stops : (k == .semicolon || decide (k.precedence ≤ min)) = true) (ts : List Token.Kind) :
    (k :: ts).head? ≠ some .lparen ∧ Quiet (min + 1) (k :: ts) := by
  refine ⟨fun call => ?_, fun m above => ?_⟩
  · obtain rfl := Option.some.inj call
    rcases Bool.or_eq_true_iff.1 stops with semi | le
    · cases semi
    · have le : 6 ≤ min := of_decide_eq_true le
      omega
  · cases spells : infixAt m k with
    | none => simp [spells]
    | some op =>
      have level := precedence_of_infixAt spells
      have low : m ≤ 4 := infixAt_le_four spells
      rcases Bool.or_eq_true_iff.1 stops with semi | le
      · rw [beq_iff_eq.1 semi] at spells
        rcases m with _ | _ | _ | _ | _ | m <;> cases spells
      · simp at le
        omega

theorem operand_of_leaf {k : Token.Kind} {a e : Expr} {ts rest : List Token.Kind}
    (leaf : k.lead = .leaf a) : Operand (k :: ts) e rest ↔ e = a ∧ rest = ts := by
  cases k <;> cases leaf <;>
  · constructor
    · intro operand
      cases operand with
      | atom atom => cases atom; exact ⟨rfl, rfl⟩
    · rintro ⟨rfl, rfl⟩
      exact .atom (by constructor)

theorem operand_of_prefixed {k : Token.Kind} {op : UnOp} {e : Expr} {ts rest : List Token.Kind}
    (prefixed : k.lead = .prefixed op) :
    Operand (k :: ts) e rest ↔ ∃ u, e = .unop op u ∧ Unary ts u rest := by
  cases k <;> cases prefixed <;>
  · constructor
    · intro operand
      rcases operand with ⟨atom⟩ | ⟨inner⟩ | ⟨inner⟩
      · cases atom
      · exact ⟨_, rfl, inner⟩
    · rintro ⟨u, rfl, inner⟩
      first | exact .not inner | exact .neg inner

theorem operand_of_none {k : Token.Kind} {e : Expr} {ts rest : List Token.Kind}
    (none : k.lead = .none) : ¬ Operand (k :: ts) e rest := by
  intro operand
  cases k <;> cases none <;> rcases operand with ⟨atom⟩ <;> cases atom

theorem operand_keyword {k : Token.Kind} {e : Expr} {ts rest : List Token.Kind}
    (keyword : k = .kwIf ∨ k = .kwFn) : Operand (k :: ts) e rest ↔ Atom (k :: ts) e rest := by
  constructor
  · intro operand
    rcases keyword with rfl | rfl <;> cases operand with
    | atom atom => exact atom
  · exact .atom

theorem lead_group {k : Token.Kind} (group : k.lead = .group) : k = .lparen := by
  cases k <;> first | rfl | cases group

theorem lead_cond {k : Token.Kind} (cond : k.lead = .cond) : k = .kwIf := by
  cases k <;> first | rfl | cases cond

theorem lead_func {k : Token.Kind} (func : k.lead = .func) : k = .kwFn := by
  cases k <;> first | rfl | cases func

/-! ## What each parse function reads -/

namespace Spec

/-- An expression binding tighter than `min`, from its first token. -/
def expression (b opened min : Nat) : Prop :=
  ∀ p : Parser, p.Valid → p.left < b → min ≤ 5 →
    Follows (Parse.expression b opened min) p rest p.view (Level (min + 1))

/-- The operators after `left`, from the token before them. -/
def operators (b opened min : Nat) (left : Expr) (fuel : Nat) : Prop :=
  ∀ p : Parser, p.Valid → p.left ≤ b → p.left ≤ fuel → min ≤ 5 →
    Follows (Parse.operators b opened min left fuel) p rest p.rest (Cont (min + 1) left)

/-- The arguments of a call, from its `(`. -/
def callArgs (b opened : Nat) (callee : Expr) : Prop :=
  ∀ p : Parser, p.Valid → p.left < b → p.cur.kind = .lparen →
    Follows (Parse.callArgs b opened callee) p rest p.rest
      (fun ts e rest => ∃ args, e = .call callee args ∧ Args ts args rest)

/-- Arguments separated by commas, from the first one's first token. -/
def argsFrom (b opened : Nat) (acc : Array Expr) (fuel : Nat) : Prop :=
  ∀ p : Parser, p.Valid → p.left < b → p.left ≤ fuel → 0 < fuel →
    Follows (Parse.argsFrom b opened acc fuel) p rest p.view
      (fun ts args rest => ∃ more, args = acc.toList ++ more ∧ Exprs ts more rest)

/-- An operand, from its first token. -/
def operand (b opened : Nat) : Prop :=
  ∀ p : Parser, p.Valid → p.left ≤ b →
    Follows (Parse.operand b opened) p rest p.view Operand

/-- A function literal, from its `fn`. -/
def function (b opened : Nat) : Prop :=
  ∀ p : Parser, p.Valid → p.left ≤ b → p.cur.kind = .kwFn →
    Follows (Parse.function b opened) p rest p.rest (fun ts e rest => Atom (.kwFn :: ts) e rest)

/-- A block, from its `{`. -/
def block (b opened : Nat) : Prop :=
  ∀ p : Parser, p.Valid → p.left ≤ b → p.cur.kind = .lbrace →
    Follows (Parse.block b opened) p rest p.rest
      (fun ts ss rest => Seq .rbrace ts ss (.rbrace :: rest))

/-- The statements of a block, up to its `}` or the end of input, which they leave in view. -/
def blockFrom (b opened : Nat) (acc : Array Stmt) (fuel : Nat) : Prop :=
  ∀ p : Parser, p.Valid → p.left < b → p.left ≤ fuel →
    Follows (Parse.blockFrom b opened acc fuel) p view p.view
      (fun ts ss rest => ∃ more, ss = acc.toList ++ more ∧ Stmts ts more rest)

/-- A statement or an empty one, from its first token. -/
def statement (b opened : Nat) : Prop :=
  ∀ p : Parser, p.Valid → p.left < b →
    Follows (Parse.statement b opened) p rest p.view
      (fun ts o rest => (o = none ∧ ts = .semicolon :: rest) ∨
        ∃ s, o = some s ∧ Statement ts s rest)

/-- A `let` statement, from its `let`. -/
def letStatement (b opened : Nat) : Prop :=
  ∀ p : Parser, p.Valid → p.left < b → p.cur.kind = .kwLet →
    Follows (Parse.letStatement b opened) p rest p.rest
      (fun ts o rest => ∃ s, o = some s ∧ Statement (.kwLet :: ts) s rest)

/-- A `return` statement, from its `return`. -/
def returnStatement (b opened : Nat) : Prop :=
  ∀ p : Parser, p.Valid → p.left < b → p.cur.kind = .kwReturn →
    Follows (Parse.returnStatement b opened) p rest p.rest
      (fun ts o rest => ∃ s, o = some s ∧ Statement (.kwReturn :: ts) s rest)

/-- A conditional, from its `if`. -/
def conditional (b opened : Nat) : Prop :=
  ∀ p : Parser, p.Valid → p.left ≤ b → p.cur.kind = .kwIf →
    Follows (Parse.conditional b opened) p rest p.rest (fun ts e rest => Atom (.kwIf :: ts) e rest)

end Spec

/-! ## Expressions -/

theorem Spec.expression_zero (opened min : Nat) : Spec.expression 0 opened min :=
  fun _ _ budget => absurd budget (Nat.not_lt_zero _)

theorem Spec.expression_succ {b opened min : Nat} (operand : Spec.operand b opened)
    (operators : ∀ (left : Expr) (q : Parser), Spec.operators b opened min left q.rounds) :
    Spec.expression (b + 1) opened min := by
  intro p valid budget small
  rw [Parse.expression.eq_2]
  refine (Follows.bind (operand p valid (by omega)) fun a q _ reach => ?_).congr
    fun e rest => level_iff_operand.symm
  have fewer := reach.left_le
  exact Follows.get_bind reach.valid
    (operators a q q reach.valid (by omega) (left_le_rounds q) small)

theorem Spec.operators_zero (b opened min : Nat) (left : Expr) :
    Spec.operators b opened min left 0 := by
  intro p valid _ enough _
  rw [Parse.operators.eq_1]
  have ended : p.rest = [] := List.eq_nil_of_length_eq_zero (Nat.le_zero.1 enough)
  refine Follows.of_ok rfl (Reach.refl valid) rfl fun e rest => ?_
  rw [ended]
  exact cont_iff_of_quiet (by simp) fun m _ => rfl

theorem Spec.operators_succ {b opened min : Nat} {left : Expr} {fuel : Nat}
    (call : Spec.callArgs b opened left)
    (afterCall : ∀ e, Spec.operators b opened min e fuel)
    (right : ∀ t : Token, Spec.expression b opened t.kind.precedence)
    (afterBinop : ∀ op r, Spec.operators b opened min (.binop op left r) fuel) :
    Spec.operators b opened min left (fuel + 1) := by
  intro p valid budget enough small
  rw [Parse.operators.eq_2]
  refine Follows.upcoming_bind valid ?_
  split
  · next stops =>
    refine Follows.of_ok rfl (Reach.refl valid) rfl fun e rest => ?_
    rcases valid.rest_cases with ended | ⟨ts, after⟩
    · rw [ended]
      exact cont_iff_of_quiet (by simp) fun m _ => rfl
    · rw [after]
      obtain ⟨open_, quiet⟩ := quiet_of_stops small stops ts
      exact cont_iff_of_quiet open_ quiet
  · next goesOn =>
    split
    · next isCall =>
      -- `(` calls what the loop has read so far
      have same : p.peek.kind = .lparen := beq_iff_eq.1 isCall
      obtain ⟨ts, after⟩ := valid.rest_of_peek same (by decide)
      obtain ⟨-, cur, moved, shorter⟩ := valid.advance_of_rest after
      refine Follows.next_bind valid ((Follows.bind
        (call p.advance valid.advance (by omega) cur) fun e q _ reach => by
          have fewer := reach.left_le
          exact afterCall e q reach.valid (by omega) (by omega) small).congr fun e rest => ?_)
      rw [after, cont_call_iff, moved]
      constructor
      · rintro ⟨e', mid, ⟨args, rfl, list⟩, cont⟩
        exact ⟨args, mid, list, cont⟩
      · rintro ⟨args, mid, list, cont⟩
        exact ⟨_, mid, ⟨args, rfl, list⟩, cont⟩
    · next notCall =>
      have binds : min < p.peek.kind.precedence := by
        simp only [Bool.or_eq_true, beq_iff_eq, decide_eq_true_eq, not_or] at goesOn
        omega
      split
      · next op spells =>
        -- an operator takes the expression of the next level as its right operand
        have real : p.peek.kind ≠ .eof := by
          intro ended
          rw [ended] at spells
          cases spells
        obtain ⟨ts, after⟩ := valid.rest_of_peek rfl real
        obtain ⟨-, cur, moved, shorter⟩ := valid.advance_of_rest after
        have onOperator : p.advance.cur.kind ≠ .eof := by rw [cur]; exact real
        have view : p.advance.advance.view = ts := by
          rw [valid.advance.view_advance onOperator, moved]
        have shorter' := valid.advance.left_advance onOperator
        have spells' := infixAt_precedence spells
        refine Follows.next_bind valid (Follows.next_bind valid.advance ((Follows.bind
          (right p.peek _ valid.advance.advance (by omega) (by have := infixAt_le_four spells'; omega))
          fun r q _ reach => by
            have fewer := reach.left_le
            exact afterBinop op r q reach.valid (by omega) (by omega) small).congr
          fun e rest => ?_))
        rw [after, view, cont_binop_iff spells' binds]
      · next none =>
        exfalso
        have notCall' : p.peek.kind ≠ .lparen := fun same => notCall (by simp [same])
        obtain ⟨op, spells⟩ := binOp?_of_precedence (k := p.peek.kind) (by omega) notCall'
        rw [spells] at none
        cases none

theorem Spec.operand_of {b opened : Nat} (unary : Spec.expression b opened unaryPrecedence)
    (inner : Spec.expression b opened 0) (conditional : Spec.conditional b opened)
    (function : Spec.function b opened) : Spec.operand b opened := by
  intro p valid budget
  rw [Parse.operand.eq_1]
  refine Follows.current_bind valid ?_
  have view := view_eq_cons p
  split
  · next a leaf =>
    refine Follows.of_ok rfl (Reach.refl valid) rfl fun e rest => ?_
    rw [view]
    exact operand_of_leaf leaf
  · next op prefixed =>
    have real : p.cur.kind ≠ .eof := fun ended => by rw [ended] at prefixed; cases prefixed
    have shorter := valid.left_advance real
    refine Follows.next_bind valid ((Follows.bind
      (unary p.advance valid.advance (by omega) (by decide)) fun u q _ reach => by
        exact Follows.pure reach.valid).congr fun e rest => ?_)
    rw [view, operand_of_prefixed prefixed, valid.view_advance real]
    constructor
    · rintro ⟨u, mid, level, rfl, rfl⟩
      exact ⟨u, rfl, (level_iff_unary (by decide)).1 level⟩
    · rintro ⟨u, rfl, operand⟩
      exact ⟨u, rest, (level_iff_unary (by decide)).2 operand, rfl, rfl⟩
  · next group =>
    -- a parenthesised expression and its closing parenthesis
    have paren := lead_group group
    have real : p.cur.kind ≠ .eof := by rw [paren]; decide
    have shorter := valid.left_advance real
    refine Follows.next_bind valid ((Follows.bind
      (inner p.advance valid.advance (by omega) (by decide)) fun a q _ reach => by
        exact Follows.expect_bind reach.valid (by decide) (Moves.throw _) fun _ =>
          Follows.pure reach.valid.advance).congr fun e rest => ?_)
    rw [view, paren, valid.view_advance real]
    constructor
    · rintro ⟨a, mid, level, ts, rfl, rfl, rfl⟩
      exact .atom (.group level)
    · intro operand
      rcases operand with ⟨atom⟩
      cases atom with
      | group level => exact ⟨e, _, level, rest, rfl, rfl, rfl⟩
  · next cond =>
    have keyword := lead_cond cond
    refine (conditional p valid budget keyword).congr fun e rest => ?_
    rw [view, keyword]
    exact (operand_keyword (.inl rfl)).symm
  · next func =>
    have keyword := lead_func func
    refine (function p valid budget keyword).congr fun e rest => ?_
    rw [view, keyword]
    exact (operand_keyword (.inr rfl)).symm
  · next none =>
    refine Follows.of_record valid rfl (Moves.throw _) fun e rest derives => ?_
    rw [view] at derives
    exact operand_of_none none derives

theorem Spec.callArgs_of {b opened : Nat} {callee : Expr}
    (args : ∀ q : Parser, Spec.argsFrom b opened #[] q.rounds) : Spec.callArgs b opened callee := by
  intro p valid budget paren
  rw [Parse.callArgs.eq_1]
  have real : p.cur.kind ≠ .eof := by rw [paren]; decide
  have shorter := valid.left_advance real
  refine Follows.upcoming_bind valid ?_
  split
  · next close =>
    obtain ⟨ts, after⟩ := valid.rest_of_peek (beq_iff_eq.1 close) (by decide)
    obtain ⟨-, -, moved, -⟩ := valid.advance_of_rest after
    refine Follows.next_bind valid ((Follows.pure valid.advance).congr fun e rest => ?_)
    rw [after, moved]
    constructor
    · rintro ⟨rfl, rfl⟩
      exact ⟨[], rfl, .none⟩
    · rintro ⟨as, rfl, list⟩
      obtain ⟨rfl, rfl⟩ := args_close_iff.1 list
      exact ⟨rfl, rfl⟩
  · next open_ =>
    have notClose := valid.head_rest fun same => open_ (beq_iff_eq.2 same)
    refine Follows.next_bind valid (Follows.get_bind valid.advance ((Follows.bind
      (args p.advance p.advance valid.advance (by omega) (left_le_rounds _) (Nat.succ_pos _))
      fun as q _ reach => by
        exact Follows.expect_bind reach.valid (by decide) (Moves.throw _) fun _ =>
          Follows.pure reach.valid.advance).congr fun e rest => ?_))
    rw [valid.view_advance real]
    constructor
    · rintro ⟨as, mid, ⟨more, same, list⟩, ts, rfl, rfl, rfl⟩
      obtain rfl : as = more := by simpa using same
      exact ⟨as, rfl, (args_open_iff notClose).2 list⟩
    · rintro ⟨as, rfl, list⟩
      exact ⟨as, _, ⟨as, by simp, (args_open_iff notClose).1 list⟩, rest, rfl, rfl, rfl⟩

theorem Spec.argsFrom_zero (b opened : Nat) (acc : Array Expr) : Spec.argsFrom b opened acc 0 :=
  fun _ _ _ _ pos => absurd pos (Nat.lt_irrefl 0)

theorem Spec.argsFrom_succ {b opened : Nat} {acc : Array Expr} {fuel : Nat}
    (first : Spec.expression b opened 0)
    (more : ∀ arg, Spec.argsFrom b opened (acc.push arg) fuel) :
    Spec.argsFrom b opened acc (fuel + 1) := by
  intro p valid budget enough _
  rw [Parse.argsFrom.eq_2]
  refine (Follows.bind (H := fun arg mid args rest =>
      (∃ ts, mid = .comma :: ts ∧ ∃ more, args = (acc.push arg).toList ++ more ∧ Exprs ts more rest) ∨
        (mid.head? ≠ some .comma ∧ args = (acc.push arg).toList ∧ rest = mid))
    (first p valid budget (by decide)) fun arg q _ reach => ?_).congr fun args rest => ?_
  · have fewer := reach.left_le
    refine Follows.upcoming_bind reach.valid ?_
    split
    · next comma =>
      obtain ⟨ts, after⟩ := reach.valid.rest_of_peek (beq_iff_eq.1 comma) (by decide)
      obtain ⟨-, cur, moved, shorter⟩ := reach.valid.advance_of_rest after
      have onComma : q.advance.cur.kind ≠ .eof := by rw [cur]; decide
      have view : q.advance.advance.view = ts := by
        rw [reach.valid.advance.view_advance onComma, moved]
      have shorter' := reach.valid.advance.left_advance onComma
      refine Follows.next_bind reach.valid (Follows.next_bind reach.valid.advance
        ((more arg _ reach.valid.advance.advance (by omega) (by omega) (by omega)).congr
          fun args rest => ?_))
      rw [view, after]
      constructor
      · exact fun list => .inl ⟨ts, rfl, list⟩
      · rintro (⟨ts', same, list⟩ | ⟨stops, -, -⟩)
        · cases same
          exact list
        · exact absurd rfl stops
    · next other =>
      have stops := reach.valid.head_rest fun same => other (beq_iff_eq.2 same)
      refine (Follows.pure reach.valid).congr fun args rest => ?_
      constructor
      · rintro ⟨rfl, rfl⟩
        exact .inr ⟨stops, rfl, rfl⟩
      · rintro (⟨ts, same, -⟩ | ⟨-, rfl, rfl⟩)
        · exact absurd (by rw [same]; rfl) stops
        · exact ⟨rfl, rfl⟩
  · constructor
    · rintro ⟨arg, mid, level, ⟨ts, rfl, more, rfl, list⟩ | ⟨stops, rfl, rfl⟩⟩
      · exact ⟨arg :: more, by simp, exprs_iff.2 ⟨arg, _, level, .inl ⟨ts, rfl, more, rfl, list⟩⟩⟩
      · exact ⟨[arg], by simp, exprs_iff.2 ⟨arg, _, level, .inr ⟨stops, rfl, rfl⟩⟩⟩
    · rintro ⟨more, rfl, list⟩
      obtain ⟨arg, mid, level, ⟨ts, rfl, more', rfl, list'⟩ | ⟨stops, rfl, rfl⟩⟩ :=
        exprs_iff.1 list
      · exact ⟨arg, _, level, .inl ⟨ts, rfl, more', by simp, list'⟩⟩
      · exact ⟨arg, _, level, .inr ⟨stops, by simp, rfl⟩⟩

/-! ## Blocks, conditionals and function literals -/

theorem Spec.function_of {b opened : Nat} (body : Spec.block b opened) :
    Spec.function b opened := by
  intro p valid budget keyword
  rw [Parse.function.eq_1]
  have shorter := (Reach.advance valid).left_le
  refine (Follows.expect_bind valid (by decide) (Moves.throw_bind _ _) fun opens => by
    obtain ⟨-, paren, -, -⟩ := valid.advance_of_rest opens
    refine Follows.bind (params_follows _ valid.advance (by rw [paren]; decide))
      fun ps q _ reach => by
        have fewer := reach.left_le
        refine Follows.expect_bind reach.valid (by decide) (Moves.throw_bind _ _) fun braces => by
          obtain ⟨-, brace, -, shorter'⟩ := reach.valid.advance_of_rest braces
          exact Follows.bind (body _ reach.valid.advance (by omega) brace) fun ss r _ reach' => by
            exact Follows.pure reach'.valid).congr fun e rest => ?_
  exact atom_fn_iff.symm

theorem else_follows {b opened : Nat} {test : Expr} {body : List Stmt}
    (block : Spec.block b opened) (q : Parser) (valid : q.Valid) (budget : q.left ≤ b) :
    Follows ((do
        if q.peek.kind == .kwElse then
          next
          unless ← expectNext (.token .lbrace) do fail
          let elseBlock ← Parse.block b opened
          return Expr.cond test body (some elseBlock)
        return Expr.cond test body none) : ParseM Expr) q rest q.rest
      (fun ts e rest => ∃ other, Else ts other rest ∧ e = .cond test body other) := by
  split
  · next isElse =>
    obtain ⟨ts, after⟩ := valid.rest_of_peek (beq_iff_eq.1 isElse) (by decide)
    obtain ⟨-, -, moved, shorter⟩ := valid.advance_of_rest after
    refine Follows.next_bind valid ((Follows.expect_bind valid.advance (by decide)
      (Moves.throw_bind _ _) fun braces => by
        obtain ⟨-, brace, -, shorter'⟩ := valid.advance.advance_of_rest braces
        exact Follows.bind (block _ valid.advance.advance (by omega) brace)
          fun ss r _ reach => by exact Follows.pure reach.valid).congr fun e rest => ?_)
    rw [after, moved]
    constructor
    · rintro ⟨ts', rfl, ss, mid, seq, rfl, rfl⟩
      exact ⟨some ss, .some seq, rfl⟩
    · rintro ⟨other, otherwise, rfl⟩
      cases otherwise with
      | none stops => exact absurd rfl stops
      | some seq => exact ⟨_, rfl, _, _, seq, rfl, rfl⟩
  · next other =>
    have stops := valid.head_rest fun same => other (beq_iff_eq.2 same)
    refine (Follows.pure valid).congr fun e rest => ?_
    generalize q.rest = ts at stops ⊢
    constructor
    · rintro ⟨rfl, rfl⟩
      exact ⟨none, .none stops, rfl⟩
    · rintro ⟨other, otherwise, rfl⟩
      cases otherwise with
      | none _ => exact ⟨rfl, rfl⟩
      | some _ => exact absurd rfl stops

theorem Spec.conditional_of {b opened : Nat} (test : Spec.expression b opened 0)
    (block : Spec.block b opened) : Spec.conditional b opened := by
  intro p valid budget keyword
  rw [Parse.conditional.eq_1]
  refine (Follows.expect_bind valid (by decide) (Moves.throw_bind _ _) fun opens => by
    obtain ⟨-, paren, -, shorter⟩ := valid.advance_of_rest opens
    have real : p.advance.cur.kind ≠ .eof := by rw [paren]; decide
    have shorter' := valid.advance.left_advance real
    refine Follows.next_bind valid.advance (Follows.of_input (valid.advance.view_advance real)
      (Follows.bind (test _ valid.advance.advance (by omega) (by decide)) fun c q _ reach => by
        have fewer := reach.left_le
        refine Follows.expect_bind reach.valid (by decide) (Moves.throw_bind _ _) fun closes => by
          refine Follows.expect_bind reach.valid.advance (by decide) (Moves.throw_bind _ _)
            fun braces => by
              obtain ⟨-, -, -, shorter''⟩ := reach.valid.advance_of_rest closes
              obtain ⟨-, brace, -, onBrace⟩ := reach.valid.advance.advance_of_rest braces
              refine Follows.bind (block _ reach.valid.advance.advance (by omega) brace)
                fun ss r _ reach' => by
                  have fewer' := reach'.left_le
                  exact Follows.upcoming_bind reach'.valid
                    (else_follows block r reach'.valid (by omega))))).congr fun e rest => ?_
  exact atom_if_iff.symm

theorem Spec.block_of {b opened : Nat}
    (statements : ∀ q : Parser, Spec.blockFrom b (opened + 1) #[] q.rounds) :
    Spec.block b opened := by
  intro p valid budget brace
  rw [Parse.block.eq_1]
  have real : p.cur.kind ≠ .eof := by rw [brace]; decide
  have shorter := valid.left_advance real
  refine Follows.next_bind valid (Follows.get_bind valid.advance ((Follows.bind
    (H := fun ss mid ss' rest => ∃ k, mid = k :: rest ∧ k ≠ .eof ∧ ss' = ss)
    (statements p.advance p.advance valid.advance (by omega) (left_le_rounds _))
    fun ss q _ reach => ?_).congr fun ss rest => ?_))
  · refine Follows.current_bind reach.valid ?_
    dsimp only
    split
    · next ended =>
      refine Follows.of_record reach.valid rfl (Moves.pure _) fun ss' rest derives => ?_
      obtain ⟨k, same, real', -⟩ := derives
      rw [view_eq_cons, beq_iff_eq.1 ended] at same
      exact real' (List.cons.inj same).1.symm
    · next going =>
      refine Follows.of_ok rfl (Reach.refl reach.valid) rfl fun ss' rest => ?_
      rw [view_eq_cons]
      constructor
      · rintro ⟨k, same, -, rfl⟩
        exact ⟨rfl, (List.cons.inj same).2.symm⟩
      · rintro ⟨rfl, rfl⟩
        exact ⟨_, rfl, fun same => going (beq_iff_eq.2 same), rfl⟩
  · rw [valid.view_advance real]
    constructor
    · rintro ⟨ss, mid, ⟨more, same, seq⟩, k, rfl, real', rfl⟩
      obtain rfl : ss = more := by simpa using same
      rcases seq with seq | seq
      · obtain rfl : k = .rbrace := Option.some.inj seq.closes
        exact seq
      · exact absurd (Option.some.inj seq.closes) real'
    · exact fun seq => ⟨ss, _, ⟨ss, by simp, .inl seq⟩, .rbrace, rfl, by decide, rfl⟩

theorem Spec.blockFrom_zero (b opened : Nat) (acc : Array Stmt) :
    Spec.blockFrom b opened acc 0 := by
  intro p valid _ enough
  rw [Parse.blockFrom.eq_1]
  have ended : p.rest = [] := List.eq_nil_of_length_eq_zero (Nat.le_zero.1 enough)
  refine Follows.of_ok rfl (Reach.refl valid) rfl fun ss rest => ?_
  rw [view_eq_cons, ended, cur_eof_iff.2 ended]
  exact stmts_of_closer_iff (.inr rfl)

theorem eof_mem_of_statement {ts rest : List Token.Kind} {o : Option Stmt} (ends : .eof ∈ ts)
    (read : (o = none ∧ ts = .semicolon :: rest) ∨ ∃ s, o = some s ∧ Statement ts s rest) :
    .eof ∈ rest := by
  rcases read with ⟨-, rfl⟩ | ⟨s, -, read⟩
  · simpa using ends
  · exact read.consumes.eof_mem ends

theorem Spec.blockFrom_succ {b opened : Nat} {acc : Array Stmt} {fuel : Nat}
    (statement : Spec.statement b opened) (more : ∀ s, Spec.blockFrom b opened (acc.push s) fuel)
    (same : Spec.blockFrom b opened acc fuel) : Spec.blockFrom b opened acc (fuel + 1) := by
  intro p valid budget enough
  rw [Parse.blockFrom.eq_2]
  refine Follows.current_bind valid ?_
  have view := view_eq_cons p
  split
  · next closes =>
    refine Follows.of_ok rfl (Reach.refl valid) rfl fun ss rest => ?_
    rw [view]
    exact stmts_of_closer_iff (by simpa using closes)
  · next open_ =>
    have notClose : p.cur.kind ≠ .rbrace ∧ p.cur.kind ≠ .eof := by simpa using open_
    refine (Follows.bind_of_clean
      (H := fun o mid ss rest => ∃ more, ss = acc.toList ++ o.toList ++ more ∧ Stmts mid more rest)
      (statement p valid budget) (fun o q _ reach => ?_) fun o q _ reach _ derives => ?_).congr
      fun ss rest => ?_
    · cases o with
      | some s => exact Moves.bind next_moves (fun _ => blockFrom_moves _ _ _ _) q reach.valid
      | none =>
        refine Moves.bind current_moves (fun c => ?_) q reach.valid
        split
        · exact Moves.pure _
        · exact Moves.bind next_moves fun _ => blockFrom_moves _ _ _ _
    · have fewer := reach.left_le
      rcases derives with ⟨rfl, semi⟩ | ⟨s, rfl, first⟩
      · -- an empty statement leaves the parser on its `;`, which it passes over
        rw [view] at semi
        obtain ⟨semi, after⟩ := List.cons.inj semi
        have still := reach.view_eq after.symm
        rw [view, view_eq_cons, semi] at still
        obtain ⟨onSemi, -⟩ := List.cons.inj still
        have real : q.cur.kind ≠ .eof := by rw [onSemi]; decide
        have shorter := reach.valid.left_advance real
        refine Follows.current_bind reach.valid ?_
        split
        · next brace => simp [onSemi] at brace
        · refine Follows.next_bind reach.valid
            ((same _ reach.valid.advance (by omega) (by omega)).congr
              fun ss rest => ?_)
          rw [reach.valid.view_advance real]
          simp
      · -- a statement ends before the end of input, on a token the parser passes over
        have real :=
          cur_ne_eof_of_mem (eof_mem_of_statement (eof_mem_view p) (.inr ⟨s, rfl, first⟩))
        have shorter := reach.valid.left_advance real
        refine Follows.next_bind reach.valid
          ((more s _ reach.valid.advance (by omega) (by omega)).congr fun ss rest => ?_)
        rw [reach.valid.view_advance real]
        simp
    · rw [view]
      constructor
      · rintro ⟨o, mid, ⟨rfl, semi⟩ | ⟨s, rfl, first⟩, more, rfl, stmts⟩
        · obtain ⟨semi, rfl⟩ := List.cons.inj semi
          rw [semi]
          exact ⟨more, by simp, (stmts_cons_iff (by decide) (by decide)).2 (.inl ⟨rfl, stmts⟩)⟩
        · exact ⟨s :: more, by simp,
            (stmts_cons_iff notClose.1 notClose.2).2 (.inr ⟨s, mid, more, first, stmts, rfl⟩)⟩
      · rintro ⟨more, rfl, stmts⟩
        rcases (stmts_cons_iff notClose.1 notClose.2).1 stmts with
          ⟨semi, stmts'⟩ | ⟨s, mid, more', first, stmts', rfl⟩
        · exact ⟨none, p.rest, .inl ⟨rfl, by rw [semi]⟩, more, by simp, stmts'⟩
        · exact ⟨some s, mid, .inr ⟨s, rfl, first⟩, more', by simp, stmts'⟩

/-! ## Statements -/

theorem identName_of {t : Token} {name : String} (named : t.kind = .ident name) :
    t.identName = name := by
  simp [Token.identName, named]

theorem Spec.statement_of {b opened : Nat} (returns : Spec.returnStatement b opened)
    (binds : Spec.letStatement b opened) (value : Spec.expression b opened 0) :
    Spec.statement b opened := by
  intro p valid budget
  refine Follows.of_run (statement_run b opened p) (Reach.refl valid) rfl
    (Follows.catching ?_ dropFailed_moves)
  have view := view_eq_cons p
  unfold statementBody
  split
  · next semi =>
    refine Follows.of_ok rfl (Reach.refl valid) rfl fun o rest => ?_
    rw [view, semi]
    constructor
    · rintro (⟨rfl, same⟩ | ⟨s, rfl, first⟩)
      · exact ⟨rfl, (List.cons.inj same).2.symm⟩
      · obtain ⟨k, ts, same, opens⟩ := first.opens
        obtain ⟨rfl, -⟩ := List.cons.inj same
        rcases opens with opens | opens | opens <;> cases opens
    · rintro ⟨rfl, rfl⟩
      exact .inl ⟨rfl, rfl⟩
  · next keyword =>
    refine (binds p valid budget keyword).congr fun o rest => ?_
    rw [view, keyword]
    constructor
    · exact .inr
    · rintro (⟨-, same⟩ | found)
      · cases same
      · exact found
  · next keyword =>
    refine (returns p valid budget keyword).congr fun o rest => ?_
    rw [view, keyword]
    constructor
    · exact .inr
    · rintro (⟨-, same⟩ | found)
      · cases same
      · exact found
  · next k notSemi notLet notReturn =>
    refine (Follows.bind (value p valid budget (by decide)) fun e q _ reach => by
      exact Follows.upcoming_bind reach.valid (semicolon_follows reach.valid)).congr
      fun o rest => ?_
    rw [view]
    constructor
    · rintro ⟨e, mid, level, rfl, rfl⟩
      exact .inr ⟨_, rfl, (statement_expr_iff notLet notReturn).2 ⟨e, mid, level, rfl, rfl⟩⟩
    · rintro (⟨-, same⟩ | ⟨s, rfl, first⟩)
      · exact absurd (List.cons.inj same).1 notSemi
      · obtain ⟨e, mid, level, rfl, rfl⟩ := (statement_expr_iff notLet notReturn).1 first
        exact ⟨e, mid, level, rfl, rfl⟩

theorem Spec.letStatement_of {b opened : Nat} (value : Spec.expression b opened 0) :
    Spec.letStatement b opened := by
  intro p valid budget keyword
  rw [Parse.letStatement.eq_1]
  have skips : Moves (skipToStatementEnd >>= fun _ => pure none : ParseM (Option Stmt)) :=
    Moves.bind (skipAll_moves _) fun _ => Moves.pure _
  refine Follows.expectNext_bind valid skips (fun named => ?_) fun unnamed o rest derives => ?_
  · obtain ⟨name, isName⟩ : ∃ name, p.peek.kind = .ident name := by
      revert named
      cases p.peek.kind <;> simp [Wanted.accepts]
    obtain ⟨ts, after⟩ := valid.rest_of_peek isName Token.Kind.noConfusion
    obtain ⟨-, cur, moved, shorter⟩ := valid.advance_of_rest after
    refine Follows.current_bind valid.advance ?_
    rw [identName_of cur]
    refine Follows.expectNext_bind valid.advance skips (fun assigns => ?_)
      fun unassigned o rest derives => ?_
    · obtain ⟨ts', after'⟩ := valid.advance.rest_of_peek (beq_iff_eq.1 assigns).symm (by decide)
      obtain ⟨-, cur', moved', shorter'⟩ := valid.advance.advance_of_rest after'
      have real : p.advance.advance.cur.kind ≠ .eof := by rw [cur']; decide
      have shorter'' := valid.advance.advance.left_advance real
      refine Follows.next_bind valid.advance.advance ((Follows.bind
        (value _ valid.advance.advance.advance (by omega) (by decide)) fun v q _ reach => by
          exact Follows.upcoming_bind reach.valid (semicolon_follows reach.valid)).congr
        fun o rest => ?_)
      rw [valid.advance.advance.view_advance real, moved', after, ← moved, after']
      constructor
      · rintro ⟨v, mid, level, rfl, rfl⟩
        exact ⟨_, rfl, statement_let_iff.2 ⟨name, ts', v, mid, rfl, level, rfl, rfl⟩⟩
      · rintro ⟨s, rfl, first⟩
        obtain ⟨name', ts'', v, mid, same, level, rfl, rfl⟩ := statement_let_iff.1 first
        obtain ⟨rfl, rfl⟩ : name' = name ∧ ts'' = ts' := by simpa using same.symm
        exact ⟨v, mid, level, rfl, rfl⟩
    · obtain ⟨s, -, first⟩ := derives
      obtain ⟨name', ts', v, mid, same, -⟩ := statement_let_iff.1 first
      rw [after] at same
      obtain ⟨-, same⟩ := List.cons.inj same
      rw [← moved] at same
      rw [(valid.advance.step same).1] at unassigned
      simp [Wanted.accepts] at unassigned
  · obtain ⟨s, -, first⟩ := derives
    obtain ⟨name, ts', v, mid, same, -⟩ := statement_let_iff.1 first
    rw [(valid.step same).1] at unnamed
    simp [Wanted.accepts] at unnamed

theorem Spec.returnStatement_of {b opened : Nat} (value : Spec.expression b opened 0) :
    Spec.returnStatement b opened := by
  intro p valid budget keyword
  rw [Parse.returnStatement.eq_1]
  have real : p.cur.kind ≠ .eof := by rw [keyword]; decide
  obtain ⟨ts, after⟩ := valid.rest_eq_peek real
  refine Follows.upcoming_bind valid ?_
  split
  · next ends =>
    have ends : endsReturn p.peek.kind = true := by simpa [endsReturn] using ends
    refine (semicolon_follows valid).congr fun o rest => ?_
    rw [after]
    constructor
    · rintro ⟨rfl, rfl⟩
      exact ⟨_, rfl, (statement_return_ends_iff ends).2 ⟨rfl, rfl⟩⟩
    · rintro ⟨s, rfl, first⟩
      obtain ⟨rfl, rfl⟩ := (statement_return_ends_iff ends).1 first
      exact ⟨rfl, rfl⟩
  · next goesOn =>
    have shorter := valid.left_advance real
    refine Follows.next_bind valid ((Follows.bind
      (value _ valid.advance (by omega) (by decide)) fun v q _ reach => by
        exact Follows.bind (skipAll_follows q reach.valid) fun u r _ reach' => by
          exact Follows.upcoming_bind reach'.valid (semicolon_follows reach'.valid)).congr
      fun o rest => ?_)
    have goesOn : endsReturn p.peek.kind = false := by simpa [endsReturn] using goesOn
    rw [valid.view_advance real, after]
    constructor
    · rintro ⟨v, mid, level, u, mid', rfl, rfl, rfl⟩
      exact ⟨_, rfl, (statement_return_value_iff goesOn).2 ⟨v, mid, level, rfl, rfl⟩⟩
    · rintro ⟨s, rfl, first⟩
      obtain ⟨v, mid, level, rfl, rfl⟩ := (statement_return_value_iff goesOn).1 first
      exact ⟨v, mid, level, (), _, rfl, rfl, rfl⟩

/-! ## All of them at once -/

/-- Every parse function reads its part of the grammar, by induction along the parser's own
mutual recursion: nesting budget first, then the order of the calls within one level. -/
theorem specs_of_parse :
    (∀ b opened min, Spec.expression b opened min) ∧
    (∀ b opened min left fuel, Spec.operators b opened min left fuel) ∧
    (∀ b opened callee, Spec.callArgs b opened callee) ∧
    (∀ b opened acc fuel, Spec.argsFrom b opened acc fuel) ∧
    (∀ b opened, Spec.operand b opened) ∧
    (∀ b opened, Spec.function b opened) ∧
    (∀ b opened, Spec.block b opened) ∧
    (∀ b opened acc fuel, Spec.blockFrom b opened acc fuel) ∧
    (∀ b opened, Spec.statement b opened) ∧
    (∀ b opened, Spec.letStatement b opened) ∧
    (∀ b opened, Spec.returnStatement b opened) ∧
    (∀ b opened, Spec.conditional b opened) :=
  Parse.expression.mutual_induct Spec.expression Spec.operators Spec.callArgs Spec.argsFrom
    Spec.operand Spec.function Spec.block Spec.blockFrom Spec.statement Spec.letStatement
    Spec.returnStatement Spec.conditional
    Spec.expression_zero (fun _ _ _ => Spec.expression_succ)
    Spec.operators_zero (fun _ _ _ _ _ => Spec.operators_succ)
    (fun _ _ _ => Spec.callArgs_of)
    Spec.argsFrom_zero (fun _ _ _ _ => Spec.argsFrom_succ)
    (fun _ _ => Spec.operand_of) (fun _ _ => Spec.function_of) (fun _ _ => Spec.block_of)
    Spec.blockFrom_zero (fun _ _ _ _ => Spec.blockFrom_succ)
    (fun _ _ => Spec.statement_of) (fun _ _ => Spec.letStatement_of)
    (fun _ _ => Spec.returnStatement_of) (fun _ _ => Spec.conditional_of)

end Parse

end Monkey
