import Monkey.Syntax

/-!
# The grammar of programs

The token kinds of a program, its end of input included, are read by this grammar:

    Program ::= (';' | Stmt)*
    Stmt    ::= 'let' IDENT '=' E [';'] | 'return' [';'] | 'return' E X* [';'] | E [';']
    E       ::= E1 (('==' | '!=') E1)*      E1 ::= E2 (('<' | '>') E2)*
    E2      ::= E3 (('+' | '-') E3)*        E3 ::= U (('*' | '/') U)*
    U       ::= ('!' | '-') U | P           P  ::= A ('(' [E (',' E)*] ')')*
    A       ::= IDENT | INT | 'true' | 'false' | '(' E ')'
              | 'if' '(' E ')' B ['else' B] | 'fn' '(' [IDENT (',' IDENT)*] ')' B
    B       ::= '{' (';' | Stmt)* '}'

where a bare `return` is one followed by `;`, `}` or the end of input, and `X` is any token but
those three. Every repetition and option is read greedily: it goes on as long as its next token
allows. Each relation below takes the tokens, the tree read from their front and the tokens left
after it; since every choice is made on the next token, the tokens decide the tree.

The second half prepares the one-loop reading of expressions by precedence climbing: an operand,
then operators in any order, each binary one taking a right operand of the next level. `Rise`
builds the chains of levels 4 down to `n` over a unary expression, and the lemmas below say how one
operator read by the loop moves it (`rise_binop_iff`); `level_iff_operand` splits an expression of
any level into its operand and the operators after it.
-/

set_option autoImplicit false
set_option relaxedAutoImplicit false

namespace Monkey.Grammar

/-- The binary operator a token spells at each level of the grammar, loosest first: equality at
1, order at 2, sums at 3 and products at 4. -/
def infixAt : Nat → Token.Kind → Option BinOp
  | 1, .eq => some .eq
  | 1, .ne => some .ne
  | 2, .lt => some .lt
  | 2, .gt => some .gt
  | 3, .plus => some .add
  | 3, .minus => some .sub
  | 4, .star => some .mul
  | 4, .slash => some .div
  | _, _ => none

/-- The tokens that end what follows the value of a `return`: `;`, `}` and the end of input. -/
def endsReturn (k : Token.Kind) : Bool := k == .semicolon || k == .rbrace || k == .eof

/-- The tokens after a statement's optional semicolon, taken when it is there. -/
def dropSemicolon : List Token.Kind → List Token.Kind
  | .semicolon :: rest => rest
  | ts => ts

/-- Parameter names separated by commas, through the closing `)`. -/
inductive Names : List Token.Kind → List String → List Token.Kind → Prop
  | last {name rest} : Names (.ident name :: .rparen :: rest) [name] rest
  | more {name ts names rest} :
      Names ts names rest → Names (.ident name :: .comma :: ts) (name :: names) rest

/-- A parameter list after its `(`, through its `)`. -/
inductive Params : List Token.Kind → List String → List Token.Kind → Prop
  | none {rest} : Params (.rparen :: rest) [] rest
  | some {ts names rest} : Names ts names rest → Params ts names rest

theorem names_iff {k : Token.Kind} {ts : List Token.Kind} {names : List String}
    {rest : List Token.Kind} {name : String} :
    Names (.ident name :: k :: ts) names rest ↔
      (k = .rparen ∧ names = [name] ∧ rest = ts) ∨
        (k = .comma ∧ ∃ more, names = name :: more ∧ Names ts more rest) := by
  constructor
  · intro list
    cases list with
    | last => exact .inl ⟨rfl, rfl, rfl⟩
    | more list => exact .inr ⟨rfl, _, rfl, list⟩
  · rintro (⟨rfl, rfl, rfl⟩ | ⟨rfl, more, rfl, list⟩)
    · exact .last
    · exact .more list

theorem Names.opens {ts : List Token.Kind} {names : List String} {rest : List Token.Kind} :
    Names ts names rest → ∃ name ts', ts = .ident name :: ts'
  | .last | .more _ => ⟨_, _, rfl⟩

mutual

/-- `Level n ts e rest`: the tokens `ts` start with the expression `e` of level `n`, and `rest`
follows it. Levels 1 to 4 are chains of their operators over the next level; from 5 on an
expression is a unary one. -/
inductive Level : Nat → List Token.Kind → Expr → List Token.Kind → Prop
  | unary {n ts e rest} : 4 < n → Unary ts e rest → Level n ts e rest
  | chain {n ts first ts' e rest} :
      n ≤ 4 → Level (n + 1) ts first ts' → Chain n first ts' e rest → Level n ts e rest

/-- `Chain n acc ts e rest`: after the operands so far, grouped to the left as `acc`, the tokens
`ts` carry the chain of level `n` on to `e`; it goes on while an operator of its level follows. -/
inductive Chain : Nat → Expr → List Token.Kind → Expr → List Token.Kind → Prop
  | stop {n acc ts} : ts.head?.bind (infixAt n) = none → Chain n acc ts acc ts
  | step {n acc k ts op right ts' e rest} :
      infixAt n k = some op → Level (n + 1) ts right ts' →
        Chain n (.binop op acc right) ts' e rest → Chain n acc (k :: ts) e rest

/-- A unary expression: prefix operators over an atom with its calls. -/
inductive Unary : List Token.Kind → Expr → List Token.Kind → Prop
  | not {ts e rest} : Unary ts e rest → Unary (.bang :: ts) (.unop .not e) rest
  | neg {ts e rest} : Unary ts e rest → Unary (.minus :: ts) (.unop .neg e) rest
  | calls {ts a ts' e rest} : Atom ts a ts' → Calls a ts' e rest → Unary ts e rest

/-- The calls of `f`, one for each opening parenthesis that follows. -/
inductive Calls : Expr → List Token.Kind → Expr → List Token.Kind → Prop
  | stop {f ts} : ts.head? ≠ some .lparen → Calls f ts f ts
  | call {f ts args ts' e rest} :
      Args ts args ts' → Calls (.call f args) ts' e rest → Calls f (.lparen :: ts) e rest

/-- The arguments of a call after its `(`, through its `)`. -/
inductive Args : List Token.Kind → List Expr → List Token.Kind → Prop
  | none {rest} : Args (.rparen :: rest) [] rest
  | some {ts args rest} : Exprs ts args (.rparen :: rest) → Args ts args rest

/-- Expressions separated by commas, as long as a comma follows. -/
inductive Exprs : List Token.Kind → List Expr → List Token.Kind → Prop
  | last {ts e rest} : Level 1 ts e rest → rest.head? ≠ some .comma → Exprs ts [e] rest
  | more {ts e ts' es rest} :
      Level 1 ts e (.comma :: ts') → Exprs ts' es rest → Exprs ts (e :: es) rest

/-- The atoms: a name, a literal, a parenthesised expression, a conditional, a function. -/
inductive Atom : List Token.Kind → Expr → List Token.Kind → Prop
  | ident {name rest} : Atom (.ident name :: rest) (.ident name) rest
  | int {v rest} : Atom (.int v :: rest) (.int v) rest
  | kwTrue {rest} : Atom (.kwTrue :: rest) (.bool true) rest
  | kwFalse {rest} : Atom (.kwFalse :: rest) (.bool false) rest
  | group {ts e rest} : Level 1 ts e (.rparen :: rest) → Atom (.lparen :: ts) e rest
  | cond {ts test ts' thenBlock ts'' elseBlock rest} :
      Level 1 ts test (.rparen :: .lbrace :: ts') → Seq .rbrace ts' thenBlock (.rbrace :: ts'') →
        Else ts'' elseBlock rest →
          Atom (.kwIf :: .lparen :: ts) (.cond test thenBlock elseBlock) rest
  | func {ts params ts' body rest} :
      Params ts params (.lbrace :: ts') → Seq .rbrace ts' body (.rbrace :: rest) →
        Atom (.kwFn :: .lparen :: ts) (.func params body) rest

/-- The `else` part of a conditional, taken whenever `else` follows. -/
inductive Else : List Token.Kind → Option (List Stmt) → List Token.Kind → Prop
  | none {ts} : ts.head? ≠ some .kwElse → Else ts none ts
  | some {ts body rest} :
      Seq .rbrace ts body (.rbrace :: rest) → Else (.kwElse :: .lbrace :: ts) (some body) rest

/-- `Seq close ts ss rest`: statements and empty statements up to the token `close`, which is left
at the front of `rest`. -/
inductive Seq : Token.Kind → List Token.Kind → List Stmt → List Token.Kind → Prop
  | stop {close ts} : ts.head? = some close → Seq close ts [] ts
  | empty {close ts ss rest} : Seq close ts ss rest → Seq close (.semicolon :: ts) ss rest
  | stmt {close ts s ts' ss rest} :
      Statement ts s ts' → Seq close ts' ss rest → Seq close ts (s :: ss) rest

/-- A statement, with its semicolon when one follows. -/
inductive Statement : List Token.Kind → Stmt → List Token.Kind → Prop
  | bind {name ts value ts'} : Level 1 ts value ts' →
      Statement (.kwLet :: .ident name :: .assign :: ts) (.bind name value) (dropSemicolon ts')
  | retNone {k ts} : endsReturn k = true →
      Statement (.kwReturn :: k :: ts) (.ret none) (dropSemicolon (k :: ts))
  | retSome {ts value ts'} : Level 1 ts value ts' →
      Statement (.kwReturn :: ts) (.ret (some value))
        (dropSemicolon (ts'.dropWhile fun k => !endsReturn k))
  | expr {ts e ts'} : Level 1 ts e ts' → Statement ts (.expr e) (dropSemicolon ts')

end

/-- The kinds `toks` of a whole input, its end included, read as the program `prog`. -/
def Reads (toks : List Token.Kind) (prog : Program) : Prop := Seq .eof toks prog.stmts [.eof]

/-! ## The first token of an expression -/

/-- The tokens an expression can start with. -/
def opensExpr : Token.Kind → Bool
  | .ident _ | .int _ | .kwTrue | .kwFalse | .bang | .minus | .lparen | .kwIf | .kwFn => true
  | _ => false

theorem Atom.opens {ts a rest} : Atom ts a rest → ∃ k ts', ts = k :: ts' ∧ opensExpr k = true
  | .ident | .int | .kwTrue | .kwFalse | .group _ | .cond _ _ _ | .func _ _ =>
    ⟨_, _, rfl, rfl⟩

theorem Unary.opens {ts e rest} : Unary ts e rest → ∃ k ts', ts = k :: ts' ∧ opensExpr k = true
  | .not _ | .neg _ => ⟨_, _, rfl, rfl⟩
  | .calls head _ => head.opens

theorem Level.opens {n ts e rest} :
    Level n ts e rest → ∃ k ts', ts = k :: ts' ∧ opensExpr k = true
  | .unary _ inner => inner.opens
  | .chain _ first _ => first.opens

theorem Level.not_of_opens {n k ts e rest} (closed : opensExpr k = false) :
    ¬ Level n (k :: ts) e rest := by
  intro level
  obtain ⟨k', ts', same, opens⟩ := level.opens
  obtain ⟨rfl, -⟩ := List.cons.inj same
  rw [closed] at opens
  exact Bool.false_ne_true opens

/-! ## Nothing is read past the end of input -/

/-- `ts` reads on to `rest` without passing an end of input. -/
def Consumes (ts rest : List Token.Kind) : Prop := ∃ pre, ts = pre ++ rest ∧ .eof ∉ pre

theorem infixAt_eof (m : Nat) : infixAt m .eof = none := by
  match m with
  | 0 | 1 | 2 | 3 | 4 | _ + 5 => rfl

theorem Consumes.refl (ts : List Token.Kind) : Consumes ts ts := ⟨[], rfl, List.not_mem_nil⟩

theorem Consumes.trans {ts mid rest : List Token.Kind} (first : Consumes ts mid)
    (second : Consumes mid rest) : Consumes ts rest := by
  obtain ⟨pre, rfl, clear⟩ := first
  obtain ⟨pre', rfl, clear'⟩ := second
  exact ⟨pre ++ pre', by simp, by simp [clear, clear']⟩

theorem Consumes.cons {k : Token.Kind} {ts rest : List Token.Kind} (real : k ≠ .eof)
    (more : Consumes ts rest) : Consumes (k :: ts) rest := by
  obtain ⟨pre, rfl, clear⟩ := more
  exact ⟨k :: pre, rfl, by simp [Ne.symm real, clear]⟩

theorem consumes_dropSemicolon (ts : List Token.Kind) : Consumes ts (dropSemicolon ts) := by
  match ts with
  | .semicolon :: rest => exact .cons (by decide) (.refl rest)
  | [] | .eof :: _ | .illegal :: _ | .ident _ :: _ | .int _ :: _ | .assign :: _ | .plus :: _
  | .minus :: _ | .bang :: _ | .star :: _ | .slash :: _ | .lt :: _ | .gt :: _ | .eq :: _
  | .ne :: _ | .comma :: _ | .lparen :: _ | .rparen :: _ | .lbrace :: _ | .rbrace :: _
  | .kwFn :: _ | .kwLet :: _ | .kwTrue :: _ | .kwFalse :: _ | .kwIf :: _ | .kwElse :: _
  | .kwReturn :: _ => exact .refl _

theorem consumes_dropWhile (ts : List Token.Kind) :
    Consumes ts (ts.dropWhile fun k => !endsReturn k) := by
  induction ts with
  | nil => exact .refl []
  | cons k ts ih =>
    by_cases ends : endsReturn k = true
    · rw [List.dropWhile_cons_of_neg (by simp [ends])]
      exact .refl _
    · rw [List.dropWhile_cons_of_pos (by simpa using ends)]
      refine .cons ?_ ih
      rintro rfl
      exact ends rfl

theorem Names.consumes {ts : List Token.Kind} {names : List String} {rest : List Token.Kind} :
    Names ts names rest → Consumes ts rest
  | .last => .cons Token.Kind.noConfusion (.cons (by decide) (.refl _))
  | .more list => .cons Token.Kind.noConfusion (.cons (by decide) list.consumes)

theorem Params.consumes {ts : List Token.Kind} {names : List String} {rest : List Token.Kind} :
    Params ts names rest → Consumes ts rest
  | .none => .cons (by decide) (.refl _)
  | .some list => list.consumes

mutual

theorem Level.consumes {n ts e rest} : Level n ts e rest → Consumes ts rest
  | .unary _ inner => inner.consumes
  | .chain _ first more => first.consumes.trans more.consumes

theorem Chain.consumes {n acc ts e rest} : Chain n acc ts e rest → Consumes ts rest
  | .stop _ => .refl _
  | .step spells right more => by
    refine .cons ?_ (right.consumes.trans more.consumes)
    rintro rfl
    rw [infixAt_eof] at spells
    cases spells

theorem Unary.consumes {ts e rest} : Unary ts e rest → Consumes ts rest
  | .not inner | .neg inner => .cons (by decide) inner.consumes
  | .calls head after => head.consumes.trans after.consumes

theorem Calls.consumes {f ts e rest} : Calls f ts e rest → Consumes ts rest
  | .stop _ => .refl _
  | .call args after => .cons (by decide) (args.consumes.trans after.consumes)

theorem Args.consumes {ts args rest} : Args ts args rest → Consumes ts rest
  | .none => .cons (by decide) (.refl _)
  | .some list => list.consumes.trans (.cons (by decide) (.refl _))

theorem Exprs.consumes {ts es rest} : Exprs ts es rest → Consumes ts rest
  | .last first _ => first.consumes
  | .more first list => first.consumes.trans (.cons (by decide) list.consumes)

theorem Atom.consumes {ts a rest} : Atom ts a rest → Consumes ts rest
  | .ident | .int | .kwTrue | .kwFalse => .cons Token.Kind.noConfusion (.refl _)
  | .group inner => .cons (by decide) (inner.consumes.trans (.cons (by decide) (.refl _)))
  | .cond test body other =>
    .cons (by decide) (.cons (by decide) (test.consumes.trans (.cons (by decide)
      (.cons (by decide) (body.consumes.trans (.cons (by decide) other.consumes))))))
  | .func params body =>
    .cons (by decide) (.cons (by decide) (params.consumes.trans (.cons (by decide)
      (body.consumes.trans (.cons (by decide) (.refl _))))))

theorem Else.consumes {ts els rest} : Else ts els rest → Consumes ts rest
  | .none _ => .refl _
  | .some body =>
    .cons (by decide) (.cons (by decide) (body.consumes.trans (.cons (by decide) (.refl _))))

theorem Seq.consumes {close ts ss rest} : Seq close ts ss rest → Consumes ts rest
  | .stop _ => .refl _
  | .empty more => .cons (by decide) more.consumes
  | .stmt first more => first.consumes.trans more.consumes

theorem Statement.consumes {ts s rest} : Statement ts s rest → Consumes ts rest
  | .bind value =>
    .cons (by decide) (.cons Token.Kind.noConfusion (.cons (by decide)
      (value.consumes.trans (consumes_dropSemicolon _))))
  | .retNone _ => .cons (by decide) (consumes_dropSemicolon _)
  | .retSome value =>
    .cons (by decide) (value.consumes.trans ((consumes_dropWhile _).trans
      (consumes_dropSemicolon _)))
  | .expr value => value.consumes.trans (consumes_dropSemicolon _)

end

theorem Consumes.eof_mem {ts rest : List Token.Kind} (reads : Consumes ts rest)
    (ends : .eof ∈ ts) : .eof ∈ rest := by
  obtain ⟨pre, rfl, clear⟩ := reads
  rcases List.mem_append.1 ends with inPre | inRest
  · exact absurd inPre clear
  · exact inRest

/-! ## What follows an expression

An expression of level `n` stops only where no operator of level `n` or above follows, and no
opening parenthesis either. -/

/-- No binary operator of level `n` or above starts `ts`. -/
def Quiet (n : Nat) (ts : List Token.Kind) : Prop :=
  ∀ m, n ≤ m → ts.head?.bind (infixAt m) = none

theorem infixAt_of_four_lt {m : Nat} (k : Token.Kind) (h : 4 < m) : infixAt m k = none := by
  match m, k with
  | 1, _ | 2, _ | 3, _ | 4, _ => omega
  | m + 5, k => rfl

theorem infixAt_lparen (m : Nat) : infixAt m .lparen = none := by
  match m with
  | 0 | 1 | 2 | 3 | 4 | _ + 5 => rfl

theorem infixAt_le_four {m : Nat} {k : Token.Kind} {op : BinOp} (h : infixAt m k = some op) :
    m ≤ 4 := by
  rcases Nat.lt_or_ge 4 m with far | near
  · rw [infixAt_of_four_lt k far] at h
    cases h
  · exact near

theorem infixAt_level_unique {m m' : Nat} {k : Token.Kind} {op op' : BinOp}
    (h : infixAt m k = some op) (h' : infixAt m' k = some op') : m = m' := by
  unfold infixAt at h h'
  split at h <;> split at h' <;> simp_all

theorem quiet_of_four_lt {n : Nat} (ts : List Token.Kind) (h : 4 < n) : Quiet n ts := by
  intro m hm
  cases ts with
  | nil => rfl
  | cons k _ => exact infixAt_of_four_lt k (by omega)

theorem Quiet.mono {n n' : Nat} {ts : List Token.Kind} (quiet : Quiet n ts) (le : n ≤ n') :
    Quiet n' ts :=
  fun m hm => quiet m (Nat.le_trans le hm)

theorem Quiet.step {n : Nat} {ts : List Token.Kind} (quiet : Quiet (n + 1) ts)
    (free : ts.head?.bind (infixAt n) = none) : Quiet n ts := by
  intro m hm
  rcases Nat.eq_or_lt_of_le hm with rfl | lt
  · exact free
  · exact quiet m lt

mutual

theorem Level.quiet {n ts e rest} : Level n ts e rest → Quiet n rest
  | .unary far _ => quiet_of_four_lt _ far
  | .chain _ first more => more.quiet first.quiet

theorem Chain.quiet {n acc ts e rest} : Chain n acc ts e rest → Quiet (n + 1) ts → Quiet n rest
  | .stop free, quiet => quiet.step free
  | .step _ right more, _ => more.quiet right.quiet

end

theorem Calls.no_call {f ts e rest} : Calls f ts e rest → rest.head? ≠ some .lparen
  | .stop open_ => open_
  | .call _ after => after.no_call

theorem Unary.no_call {ts e rest} : Unary ts e rest → rest.head? ≠ some .lparen
  | .not inner | .neg inner => inner.no_call
  | .calls _ after => after.no_call

mutual

theorem Level.no_call {n ts e rest} : Level n ts e rest → rest.head? ≠ some .lparen
  | .unary _ inner => inner.no_call
  | .chain _ first more => more.no_call first.no_call

theorem Chain.no_call {n acc ts e rest} :
    Chain n acc ts e rest → ts.head? ≠ some .lparen → rest.head? ≠ some .lparen
  | .stop _, open_ => open_
  | .step _ right more, _ => more.no_call right.no_call

end

theorem level_iff_unary {n ts e rest} (far : 4 < n) : Level n ts e rest ↔ Unary ts e rest := by
  constructor
  · intro level
    cases level with
    | unary _ inner => exact inner
    | chain near _ _ => omega
  · exact Level.unary far

/-! ## Precedence climbing -/

/-- `Rise n u ts e rest`: the unary expression `u` grows into the expression `e` of level `n` by
the chains of levels 4 down to `n`, reading `ts` and leaving `rest`. -/
inductive Rise : Nat → Expr → List Token.Kind → Expr → List Token.Kind → Prop
  | top {n u ts} : 4 < n → Rise n u ts u ts
  | chain {n u ts e' ts' e rest} :
      n ≤ 4 → Rise (n + 1) u ts e' ts' → Chain n e' ts' e rest → Rise n u ts e rest

theorem Level.rise {n ts e rest} :
    Level n ts e rest → ∃ u ts', Unary ts u ts' ∧ Rise n u ts' e rest
  | .unary far inner => ⟨e, rest, inner, .top far⟩
  | .chain near first more =>
    have ⟨u, ts', inner, rise⟩ := first.rise
    ⟨u, ts', inner, .chain near rise more⟩

theorem Rise.level {n u ts ts' e rest} (inner : Unary ts u ts') (rise : Rise n u ts' e rest) :
    Level n ts e rest := by
  induction rise with
  | top far => exact .unary far inner
  | chain near _ more ih => exact .chain near (ih inner) more

theorem level_iff_rise {n ts e rest} :
    Level n ts e rest ↔ ∃ u ts', Unary ts u ts' ∧ Rise n u ts' e rest :=
  ⟨Level.rise, fun ⟨_, _, inner, rise⟩ => rise.level inner⟩

theorem Rise.refl {n u ts} (quiet : Quiet n ts) : Rise n u ts u ts :=
  if far : 4 < n then .top far
  else .chain (by omega) (Rise.refl (quiet.mono (Nat.le_succ _))) (.stop (quiet n (Nat.le_refl _)))
termination_by 5 - n

theorem rise_iff_of_quiet {n u ts e rest} (quiet : Quiet n ts) :
    Rise n u ts e rest ↔ e = u ∧ rest = ts := by
  constructor
  · intro rise
    induction rise with
    | top => exact ⟨rfl, rfl⟩
    | chain near _ more ih =>
      obtain ⟨rfl, rfl⟩ := ih (quiet.mono (Nat.le_succ _))
      cases more with
      | stop => exact ⟨rfl, rfl⟩
      | step op _ _ =>
        have free := quiet _ (Nat.le_refl _)
        simp only [List.head?_cons, Option.bind_some] at free
        rw [free] at op
        cases op
  · rintro ⟨rfl, rfl⟩
    exact Rise.refl quiet

theorem rise_binop_iff {n p u k ts e rest} {op : BinOp} (spells : infixAt p k = some op)
    (le : n ≤ p) :
    Rise n u (k :: ts) e rest ↔
      ∃ r ts', Level (p + 1) ts r ts' ∧ Rise n (.binop op u r) ts' e rest := by
  have low : p ≤ 4 := infixAt_le_four spells
  -- `k` spells an operator of level `p` alone, so the levels above `p` let it through
  have above : Quiet (p + 1) (k :: ts) := by
    intro m hm
    cases other : infixAt m k with
    | none => simp [other]
    | some op' => have := infixAt_level_unique spells other; omega
  constructor
  · intro rise
    generalize input : k :: ts = ts₀ at rise
    induction rise with
    | top far => omega
    | @chain n _ _ e' ts' _ _ near below chain ih =>
      rcases Nat.eq_or_lt_of_le le with rfl | lt
      · subst input
        obtain ⟨rfl, rfl⟩ := (rise_iff_of_quiet above).1 below
        cases chain with
        | stop free => simp [spells] at free
        | step spells' right chain =>
          obtain rfl : op = _ := Option.some.inj (spells.symm.trans spells')
          exact ⟨_, _, right, .chain near ((rise_iff_of_quiet right.quiet).2 ⟨rfl, rfl⟩) chain⟩
      · obtain ⟨r, ts₁, right, rise⟩ := ih lt input
        exact ⟨r, ts₁, right, .chain near rise chain⟩
  · rintro ⟨r, ts₁, right, rise⟩
    generalize operand : Expr.binop op u r = v at rise
    induction rise with
    | top far => omega
    | @chain n _ _ e' ts' _ _ near below chain ih =>
      rcases Nat.eq_or_lt_of_le le with rfl | lt
      · subst operand
        obtain ⟨rfl, rfl⟩ := (rise_iff_of_quiet right.quiet).1 below
        exact .chain near ((rise_iff_of_quiet above).2 ⟨rfl, rfl⟩) (.step spells right chain)
      · exact .chain near (ih lt right operand) chain

/-- What the loop reads before any operator: an atom, or a prefix operator over a unary
expression. -/
inductive Operand : List Token.Kind → Expr → List Token.Kind → Prop
  | atom {ts a rest} : Atom ts a rest → Operand ts a rest
  | not {ts u rest} : Unary ts u rest → Operand (.bang :: ts) (.unop .not u) rest
  | neg {ts u rest} : Unary ts u rest → Operand (.minus :: ts) (.unop .neg u) rest

/-- `Cont n a ts e rest`: after the operand `a`, the tokens `ts` carry it on to the expression `e`
of level `n`: first the calls of `a`, then the chains over the unary expression they make. -/
def Cont (n : Nat) (a : Expr) (ts : List Token.Kind) (e : Expr) (rest : List Token.Kind) :
    Prop :=
  ∃ u ts', Calls a ts u ts' ∧ Rise n u ts' e rest

theorem level_iff_operand {n ts e rest} :
    Level n ts e rest ↔ ∃ a ts', Operand ts a ts' ∧ Cont n a ts' e rest := by
  rw [level_iff_rise]
  constructor
  · rintro ⟨u, ts', inner, rise⟩
    cases inner with
    | not inner => exact ⟨_, ts', .not inner, _, ts', .stop inner.no_call, rise⟩
    | neg inner => exact ⟨_, ts', .neg inner, _, ts', .stop inner.no_call, rise⟩
    | calls head after => exact ⟨_, _, .atom head, u, ts', after, rise⟩
  · rintro ⟨a, ts', operand, u, ts'', after, rise⟩
    -- a prefix operator takes its operand's calls, so none are left for the loop
    cases operand with
    | atom head => exact ⟨u, ts'', .calls head after, rise⟩
    | not inner =>
      cases after with
      | stop _ => exact ⟨_, _, .not inner, rise⟩
      | call _ _ => exact absurd rfl inner.no_call
    | neg inner =>
      cases after with
      | stop _ => exact ⟨_, _, .neg inner, rise⟩
      | call _ _ => exact absurd rfl inner.no_call

theorem cont_iff_of_quiet {n a ts e rest} (open_ : ts.head? ≠ some .lparen)
    (quiet : Quiet n ts) : Cont n a ts e rest ↔ e = a ∧ rest = ts := by
  constructor
  · rintro ⟨u, ts', after, rise⟩
    cases after with
    | stop _ => exact (rise_iff_of_quiet quiet).1 rise
    | call _ _ => exact absurd rfl open_
  · rintro ⟨same, left⟩
    rw [same, left]
    exact ⟨a, ts, .stop open_, Rise.refl quiet⟩

theorem cont_call_iff {n a ts e rest} :
    Cont n a (.lparen :: ts) e rest ↔
      ∃ args ts', Args ts args ts' ∧ Cont n (.call a args) ts' e rest := by
  constructor
  · rintro ⟨u, ts', after, rise⟩
    cases after with
    | stop open_ => exact absurd rfl open_
    | call args more => exact ⟨_, _, args, u, ts', more, rise⟩
  · rintro ⟨args, ts', hargs, u, ts'', more, rise⟩
    exact ⟨u, ts'', .call hargs more, rise⟩

theorem cont_binop_iff {n p a k ts e rest} {op : BinOp} (spells : infixAt p k = some op)
    (le : n ≤ p) :
    Cont n a (k :: ts) e rest ↔
      ∃ r ts', Level (p + 1) ts r ts' ∧ Cont n (.binop op a r) ts' e rest := by
  have notCall : (k :: ts).head? ≠ some .lparen := by
    intro same
    simp only [List.head?_cons, Option.some.injEq] at same
    subst same
    rw [infixAt_lparen] at spells
    cases spells
  constructor
  · rintro ⟨u, ts', after, rise⟩
    cases after with
    | stop _ =>
      obtain ⟨r, ts'', right, rise⟩ := (rise_binop_iff spells le).1 rise
      exact ⟨r, ts'', right, _, ts'', .stop right.no_call, rise⟩
    | call _ _ => exact absurd rfl notCall
  · rintro ⟨r, ts', right, u, ts'', after, rise⟩
    cases after with
    | stop _ => exact ⟨a, k :: ts, .stop notCall, (rise_binop_iff spells le).2 ⟨r, ts', right, rise⟩⟩
    | call _ _ => exact absurd rfl right.no_call

/-! ## Reading statements, arguments and atoms token by token

The parser decides on the next token at every step; these lemmas say what each relation derives
once that token is known, in the order the parser reads the pieces. -/

theorem Seq.closes {close ts ss rest} : Seq close ts ss rest → rest.head? = some close
  | .stop closes => closes
  | .empty more => more.closes
  | .stmt _ more => more.closes

theorem Statement.opens {ts s rest} (statement : Statement ts s rest) :
    ∃ k ts', ts = k :: ts' ∧ (k = .kwLet ∨ k = .kwReturn ∨ opensExpr k = true) := by
  cases statement with
  | bind _ => exact ⟨_, _, rfl, .inl rfl⟩
  | retNone _ | retSome _ => exact ⟨_, _, rfl, .inr (.inl rfl)⟩
  | expr value =>
    obtain ⟨k, ts', same, opens⟩ := value.opens
    exact ⟨k, ts', same, .inr (.inr opens)⟩

theorem seq_cons_iff {close k ts ss rest} (open_ : k ≠ close) :
    Seq close (k :: ts) ss rest ↔ (k = .semicolon ∧ Seq close ts ss rest) ∨
      ∃ s mid ss', Statement (k :: ts) s mid ∧ Seq close mid ss' rest ∧ ss = s :: ss' := by
  constructor
  · intro seq
    cases seq with
    | stop closes => exact absurd (Option.some.inj closes) open_
    | empty more => exact .inl ⟨rfl, more⟩
    | stmt first more => exact .inr ⟨_, _, _, first, more, rfl⟩
  · rintro (⟨rfl, more⟩ | ⟨s, mid, ss', first, more, rfl⟩)
    · exact .empty more
    · exact .stmt first more

theorem Seq.of_closer {close k ts ss rest} (closer : k = .rbrace ∨ k = .eof)
    (seq : Seq close (k :: ts) ss rest) : ss = [] ∧ rest = k :: ts := by
  cases seq with
  | stop _ => exact ⟨rfl, rfl⟩
  | empty _ => rcases closer with same | same <;> cases same
  | stmt first _ =>
    obtain ⟨k', ts', same, opens⟩ := first.opens
    obtain ⟨rfl, -⟩ := List.cons.inj same
    rcases closer with rfl | rfl <;> rcases opens with same | same | same <;> cases same

theorem opensExpr_of_endsReturn {k : Token.Kind} (ends : endsReturn k = true) :
    opensExpr k = false := by
  cases k <;> first | rfl | simp [endsReturn] at ends

theorem statement_let_iff {ts s rest} :
    Statement (.kwLet :: ts) s rest ↔
      ∃ name ts' value mid, ts = .ident name :: .assign :: ts' ∧ Level 1 ts' value mid ∧
        s = .bind name value ∧ rest = dropSemicolon mid := by
  constructor
  · intro statement
    cases statement with
    | bind value => exact ⟨_, _, _, _, rfl, value, rfl, rfl⟩
    | expr value => exact absurd value (Level.not_of_opens rfl)
  · rintro ⟨name, ts', value, mid, rfl, level, rfl, rfl⟩
    exact .bind level

theorem statement_return_ends_iff {k ts s rest} (ends : endsReturn k = true) :
    Statement (.kwReturn :: k :: ts) s rest ↔ s = .ret none ∧ rest = dropSemicolon (k :: ts) := by
  constructor
  · intro statement
    cases statement with
    | retNone _ => exact ⟨rfl, rfl⟩
    | retSome value => exact absurd value (Level.not_of_opens (opensExpr_of_endsReturn ends))
    | expr value => exact absurd value (Level.not_of_opens rfl)
  · rintro ⟨rfl, rfl⟩
    exact .retNone ends

theorem statement_return_value_iff {k ts s rest} (goesOn : endsReturn k = false) :
    Statement (.kwReturn :: k :: ts) s rest ↔
      ∃ value mid, Level 1 (k :: ts) value mid ∧ s = .ret (some value) ∧
        rest = dropSemicolon (mid.dropWhile fun k => !endsReturn k) := by
  constructor
  · intro statement
    cases statement with
    | retNone ends => rw [goesOn] at ends; cases ends
    | retSome value => exact ⟨_, _, value, rfl, rfl⟩
    | expr value => exact absurd value (Level.not_of_opens rfl)
  · rintro ⟨value, mid, level, rfl, rfl⟩
    exact .retSome level

theorem statement_expr_iff {k ts s rest} (notLet : k ≠ .kwLet) (notReturn : k ≠ .kwReturn) :
    Statement (k :: ts) s rest ↔
      ∃ e mid, Level 1 (k :: ts) e mid ∧ s = .expr e ∧ rest = dropSemicolon mid := by
  constructor
  · intro statement
    cases statement with
    | bind _ => exact absurd rfl notLet
    | retNone _ | retSome _ => exact absurd rfl notReturn
    | expr value => exact ⟨_, _, value, rfl, rfl⟩
  · rintro ⟨e, mid, level, rfl, rfl⟩
    exact .expr level

theorem Exprs.opens {ts es rest} (list : Exprs ts es rest) :
    ∃ k ts', ts = k :: ts' ∧ opensExpr k = true := by
  cases list with
  | last first _ | more first _ => exact first.opens

theorem args_close_iff {ts args rest} : Args (.rparen :: ts) args rest ↔ args = [] ∧ rest = ts := by
  constructor
  · intro list
    cases list with
    | none => exact ⟨rfl, rfl⟩
    | some list =>
      obtain ⟨k, ts', same, opens⟩ := list.opens
      obtain ⟨rfl, -⟩ := List.cons.inj same
      cases opens
  · rintro ⟨rfl, rfl⟩
    exact .none

theorem args_open_iff {ts args rest} (open_ : ts.head? ≠ some .rparen) :
    Args ts args rest ↔ Exprs ts args (.rparen :: rest) := by
  constructor
  · intro list
    cases list with
    | none => exact absurd rfl open_
    | some list => exact list
  · exact .some

theorem exprs_iff {ts es rest} :
    Exprs ts es rest ↔ ∃ e mid, Level 1 ts e mid ∧
      ((∃ ts', mid = .comma :: ts' ∧ ∃ es', es = e :: es' ∧ Exprs ts' es' rest) ∨
        (mid.head? ≠ some .comma ∧ es = [e] ∧ rest = mid)) := by
  constructor
  · intro list
    cases list with
    | last first stops => exact ⟨_, _, first, .inr ⟨stops, rfl, rfl⟩⟩
    | more first list => exact ⟨_, _, first, .inl ⟨_, rfl, _, rfl, list⟩⟩
  · rintro ⟨e, mid, first, ⟨ts', rfl, es', rfl, list⟩ | ⟨stops, rfl, rfl⟩⟩
    · exact .more first list
    · exact .last first stops

theorem atom_if_iff {ts e rest} :
    Atom (.kwIf :: ts) e rest ↔ ∃ ts1, ts = .lparen :: ts1 ∧ ∃ test mid, Level 1 ts1 test mid ∧
      ∃ ts2, mid = .rparen :: ts2 ∧ ∃ ts3, ts2 = .lbrace :: ts3 ∧
        ∃ body mid', Seq .rbrace ts3 body (.rbrace :: mid') ∧
          ∃ other, Else mid' other rest ∧ e = .cond test body other := by
  constructor
  · intro atom
    cases atom with
    | cond test body other => exact ⟨_, rfl, _, _, test, _, rfl, _, rfl, _, _, body, _, other, rfl⟩
  · rintro ⟨ts1, rfl, test, mid, level, ts2, rfl, ts3, rfl, body, mid', block, other, otherwise,
      rfl⟩
    exact .cond level block otherwise

theorem atom_fn_iff {ts e rest} :
    Atom (.kwFn :: ts) e rest ↔ ∃ ts1, ts = .lparen :: ts1 ∧ ∃ params mid, Params ts1 params mid ∧
      ∃ ts2, mid = .lbrace :: ts2 ∧ ∃ body mid', Seq .rbrace ts2 body (.rbrace :: mid') ∧
        e = .func params body ∧ rest = mid' := by
  constructor
  · intro atom
    cases atom with
    | func params body => exact ⟨_, rfl, _, _, params, _, rfl, _, _, body, rfl, rfl⟩
  · rintro ⟨ts1, rfl, params, mid, list, ts2, rfl, body, mid', block, rfl, rfl⟩
    exact .func list block

theorem seq_eof_iff {acc : List Stmt} {ts ss rest} :
    (∃ more, ss = acc ++ more ∧ Seq .eof (.eof :: ts) more rest) ↔
      ss = acc ∧ rest = .eof :: ts := by
  constructor
  · rintro ⟨more, rfl, seq⟩
    obtain ⟨rfl, rfl⟩ := seq.of_closer (.inr rfl)
    simp
  · rintro ⟨rfl, rfl⟩
    exact ⟨[], by simp, .stop rfl⟩

/-- Statements up to a closing brace or the end of input, whichever comes first. -/
def Stmts (ts : List Token.Kind) (ss : List Stmt) (rest : List Token.Kind) : Prop :=
  Seq .rbrace ts ss rest ∨ Seq .eof ts ss rest

theorem stmts_of_closer_iff {acc : List Stmt} {k ts ss rest} (closer : k = .rbrace ∨ k = .eof) :
    (∃ more, ss = acc ++ more ∧ Stmts (k :: ts) more rest) ↔ ss = acc ∧ rest = k :: ts := by
  constructor
  · rintro ⟨more, rfl, seq | seq⟩ <;>
    · obtain ⟨rfl, rfl⟩ := seq.of_closer closer
      simp
  · rintro ⟨rfl, rfl⟩
    refine ⟨[], by simp, ?_⟩
    rcases closer with rfl | rfl
    · exact .inl (.stop rfl)
    · exact .inr (.stop rfl)

theorem stmts_cons_iff {k ts ss rest} (notBrace : k ≠ .rbrace) (notEnd : k ≠ .eof) :
    Stmts (k :: ts) ss rest ↔ (k = .semicolon ∧ Stmts ts ss rest) ∨
      ∃ s mid ss', Statement (k :: ts) s mid ∧ Stmts mid ss' rest ∧ ss = s :: ss' := by
  unfold Stmts
  rw [seq_cons_iff notBrace, seq_cons_iff notEnd]
  constructor
  · rintro ((⟨semi, seq⟩ | ⟨s, mid, ss', first, seq, rfl⟩) |
      (⟨semi, seq⟩ | ⟨s, mid, ss', first, seq, rfl⟩))
    · exact .inl ⟨semi, .inl seq⟩
    · exact .inr ⟨s, mid, ss', first, .inl seq, rfl⟩
    · exact .inl ⟨semi, .inr seq⟩
    · exact .inr ⟨s, mid, ss', first, .inr seq, rfl⟩
  · rintro (⟨semi, seq | seq⟩ | ⟨s, mid, ss', first, seq | seq, rfl⟩)
    · exact .inl (.inl ⟨semi, seq⟩)
    · exact .inr (.inl ⟨semi, seq⟩)
    · exact .inl (.inr ⟨s, mid, ss', first, seq, rfl⟩)
    · exact .inr (.inr ⟨s, mid, ss', first, seq, rfl⟩)

theorem dropSemicolon_of_head {ts : List Token.Kind} (other : ts.head? ≠ some .semicolon) :
    dropSemicolon ts = ts := by
  match ts, other with
  | [], _ => rfl
  | k :: ts, other =>
    unfold dropSemicolon
    split
    · next same => exact absurd (by rw [List.cons.inj same |>.1]; rfl) other
    · rfl

theorem params_close_iff {ts names rest} :
    Params (.rparen :: ts) names rest ↔ names = [] ∧ rest = ts := by
  constructor
  · intro list
    cases list with
    | none => exact ⟨rfl, rfl⟩
    | some list =>
      obtain ⟨name, ts', same⟩ := list.opens
      cases same
  · rintro ⟨rfl, rfl⟩
    exact .none

theorem params_open_iff {ts names rest} (open_ : ts.head? ≠ some .rparen) :
    Params ts names rest ↔ Names ts names rest := by
  constructor
  · intro list
    cases list with
    | none => exact absurd rfl open_
    | some list => exact list
  · exact .some

end Monkey.Grammar
