import Monkey.Proofs.Leaves
import Monkey.Proofs.Programs

/-!
# Printed programs read back as themselves

The printer puts every operation between parentheses and every block between braces, and ends
bindings and returns with `;`. The grammar reads those tokens back as the tree they came from,
except in two places where it asks for more than the printer writes:

* a conditional's test is printed as it stands, while the grammar wants it between parentheses,
  so a test reads back only when it is an operation and prints its own;
* an expression statement is printed with no `;` after it, so when the next statement starts
  with `(` the grammar reads the two as one call.

`Program.reprintable` rules out both. For such a program the grammar reads the kinds of its
printed tokens as the program itself (`reads_kinds`). The proof follows the printer: a mutual
structural theorem over the tree, each case given what may follow its text, as the printing half
in `Monkey.Proofs.Printing` is.

The scanner reads the printed text as those kinds (`scan_render`), which holds of every parsed
program (`parseWith_scannable`), and on a text with fewer tokens than the nesting limit the parser
follows the grammar (`parseWith_of_reads`). `Monkey.Proofs.PrintedNesting` reads printed programs
back with no bound on their length, only on how deep they nest.
-/

set_option autoImplicit false
set_option relaxedAutoImplicit false

namespace Monkey

namespace Expr

/-- Whether an expression is an operation, which prints between parentheses. -/
def isOperation : Expr → Bool
  | .unop .. | .binop .. => true
  | _ => false

/-- Whether an expression's text starts with `(`: an operation's does, and so does that of a call
whose callee's does. -/
def opensParen : Expr → Bool
  | .unop .. | .binop .. => true
  | .call callee _ => callee.opensParen
  | _ => false

end Expr

/-- Whether `next` can follow `s` in a block and still read as a statement of its own: after an
expression statement, printed with no `;`, one that starts with `(` reads as a call of it. -/
def Stmt.standsBefore : Stmt → Stmt → Bool
  | .expr _, .expr e => !e.opensParen
  | _, _ => true

mutual

/-- Whether the text of an expression reads back as the expression: every conditional in it tests
an operation, and the statements of every block in it stand apart. -/
def Expr.reprintable : Expr → Bool
  | .ident _ | .int _ | .bool _ => true
  | .unop _ arg => arg.reprintable
  | .binop _ l r => l.reprintable && r.reprintable
  | .cond test t none => test.isOperation && test.reprintable && stmtsReprintable t
  | .cond test t (some e) =>
    test.isOperation && test.reprintable && stmtsReprintable t && stmtsReprintable e
  | .func _ body => stmtsReprintable body
  | .call callee args => callee.reprintable && argsReprintable args

def argsReprintable : List Expr → Bool
  | [] => true
  | a :: rest => a.reprintable && argsReprintable rest

def Stmt.reprintable : Stmt → Bool
  | .bind _ value | .ret (some value) | .expr value => value.reprintable
  | .ret none => true

def stmtsReprintable : List Stmt → Bool
  | [] => true
  | s :: rest => s.reprintable && rest.head?.all s.standsBefore && stmtsReprintable rest

end

/-- Whether the printed text of a program reads back as the program. -/
def Program.reprintable (p : Program) : Bool := stmtsReprintable p.stmts

namespace BinOp

theorem binOp?_kind (op : BinOp) : op.kind.binOp? = some op := by
  cases op <;> rfl

theorem binds (op : BinOp) : 1 ≤ op.kind.precedence := by
  cases op <;> decide

theorem kind_continues (op : BinOp) (ts : List Token.Kind) :
    (op.kind :: ts).head? ≠ some .kwElse ∧ (op.kind :: ts).head? ≠ some .lparen := by
  cases op <;> simp [kind]

end BinOp

namespace Grammar

open Monkey.Parse (infixAt_precedence precedence_of_infixAt)

theorem quiet_of_precedence {k : Token.Kind} (zero : k.precedence = 0) (n : Nat)
    (rest : List Token.Kind) : Quiet n (k :: rest) := by
  intro m _
  cases spells : infixAt m k with
  | none => simp [spells]
  | some op =>
    have level := precedence_of_infixAt spells
    rw [zero] at level
    subst level
    cases k <;> cases spells

theorem level_of_unary {n ts e rest} (unary : Unary ts e rest)
    (ends : ∀ k ∈ rest.head?, k.precedence = 0) : Level n ts e rest := by
  refine level_iff_rise.2 ⟨e, rest, unary, Rise.refl ?_⟩
  match rest, ends with
  | [], _ => intro m _; rfl
  | k :: rest, ends => exact quiet_of_precedence (ends k rfl) n rest

theorem rparen_ends (ts : List Token.Kind) :
    ∀ k ∈ (Token.Kind.rparen :: ts).head?, k.precedence = 0 := by
  simp [Token.Kind.precedence]

theorem level_unop {op : UnOp} {arg : Expr} {ts : List Token.Kind}
    (operand : Unary (arg.kinds ++ .rparen :: ts) arg (.rparen :: ts)) :
    Level 1 (op.kind :: (arg.kinds ++ .rparen :: ts)) (.unop op arg) (.rparen :: ts) := by
  refine level_of_unary ?_ (rparen_ends ts)
  cases op with
  | not => exact .not operand
  | neg => exact .neg operand

theorem level_binop {op : BinOp} {l r : Expr} {ts : List Token.Kind}
    (left : Unary (l.kinds ++ op.kind :: (r.kinds ++ .rparen :: ts)) l
      (op.kind :: (r.kinds ++ .rparen :: ts)))
    (right : Unary (r.kinds ++ .rparen :: ts) r (.rparen :: ts)) :
    Level 1 (l.kinds ++ op.kind :: (r.kinds ++ .rparen :: ts)) (.binop op l r) (.rparen :: ts) := by
  have rise : Rise 1 l (op.kind :: (r.kinds ++ .rparen :: ts)) (.binop op l r) (.rparen :: ts) :=
    (rise_binop_iff (infixAt_precedence op.binOp?_kind) op.binds).2
      ⟨r, _, level_of_unary right (rparen_ends ts), Rise.refl (quiet_of_precedence rfl 1 ts)⟩
  exact level_iff_rise.2 ⟨l, _, left, rise⟩

theorem names_reads {rest : List Token.Kind} (p : String) :
    (ps : List String) → Names (paramKinds (p :: ps) ++ .rparen :: rest) (p :: ps) rest
  | [] => .last
  | q :: ps => by
    simp only [paramKinds, List.cons_append]
    exact .more (names_reads q ps)

theorem params_reads {rest : List Token.Kind} :
    (params : List String) → Params (paramKinds params ++ .rparen :: rest) params rest
  | [] => .none
  | p :: ps => .some (names_reads p ps)

/-- What may follow an expression statement: a token that neither binds, nor opens a call, nor
carries on a conditional, nor is the statement's own `;`. -/
def Closes (rest : List Token.Kind) : Prop :=
  ∀ k ∈ rest.head?, k.precedence = 0 ∧ k ≠ .kwElse ∧ k ≠ .semicolon

theorem kinds_closes : (e : Expr) → e.opensParen = false → ∀ rest, Closes (e.kinds ++ rest)
  | .ident _, _, _ | .int _, _, _ | .cond _ _ none, _, _ | .cond _ _ (some _), _, _
  | .func _ _, _, _ => by simp [Closes, Expr.kinds, Token.Kind.precedence]
  | .bool b, _, _ => by cases b <;> simp [Closes, Expr.kinds, Token.Kind.precedence]
  | .unop .., opens, _ | .binop .., opens, _ => by simp [Expr.opensParen] at opens
  | .call callee args, opens, rest => by
    simp only [Expr.kinds, List.append_assoc]
    exact kinds_closes callee opens _

theorem stmt_kinds_closes {e : Expr} {t : Stmt} (stands : (Stmt.expr e).standsBefore t)
    (rest : List Token.Kind) : Closes (t.kinds ++ rest) := by
  cases t with
  | bind => simp [Closes, Stmt.kinds, Token.Kind.precedence]
  | ret value => cases value <;> simp [Closes, Stmt.kinds, Token.Kind.precedence]
  | expr e' =>
    rw [Stmt.kinds]
    exact kinds_closes e' (by simpa [Stmt.standsBefore] using stands) rest

theorem closes_cons {k : Token.Kind} (closer : k = .rbrace ∨ k = .eof) (rest : List Token.Kind) :
    Closes (k :: rest) := by
  rcases closer with rfl | rfl <;> simp [Closes, Token.Kind.precedence]

mutual

theorem unary_kinds : (e : Expr) → e.reprintable →
    ∀ {rest e' rest'}, rest.head? ≠ some .kwElse → Calls e rest e' rest' →
      Unary (e.kinds ++ rest) e' rest'
  | .ident _, _, _, _, _, _, calls => .calls .ident calls
  | .int _, _, _, _, _, _, calls => .calls .int calls
  | .bool true, _, _, _, _, _, calls => .calls .kwTrue calls
  | .bool false, _, _, _, _, _, calls => .calls .kwFalse calls
  | .unop op arg, reprintable, _, _, _, _, calls => by
    simp only [Expr.reprintable] at reprintable
    simp only [Expr.kinds, List.cons_append, List.append_assoc, List.nil_append]
    exact .calls (.group (level_unop (unary_kinds arg reprintable (by simp) (.stop (by simp)))))
      calls
  | .binop op l r, reprintable, _, _, _, _, calls => by
    simp only [Expr.reprintable, Bool.and_eq_true] at reprintable
    simp only [Expr.kinds, List.cons_append, List.append_assoc, List.nil_append]
    exact .calls (.group (level_binop
      (unary_kinds l reprintable.1 (op.kind_continues _).1 (.stop (op.kind_continues _).2))
      (unary_kinds r reprintable.2 (by simp) (.stop (by simp))))) calls
  | .cond (.unop op arg) t none, reprintable, _, _, _, noElse, calls => by
    simp only [Expr.reprintable, Expr.isOperation, Bool.true_and, Bool.and_eq_true] at reprintable
    simp only [Expr.kinds, List.cons_append, List.append_assoc, List.nil_append]
    exact .calls (.cond (level_unop (unary_kinds arg reprintable.1 (by simp) (.stop (by simp))))
      (stmts_seq t reprintable.2 (closes_cons (.inl rfl) _)) (.none noElse)) calls
  | .cond (.binop op l r) t none, reprintable, _, _, _, noElse, calls => by
    simp only [Expr.reprintable, Expr.isOperation, Bool.true_and, Bool.and_eq_true] at reprintable
    simp only [Expr.kinds, List.cons_append, List.append_assoc, List.nil_append]
    exact .calls (.cond (level_binop
        (unary_kinds l reprintable.1.1 (op.kind_continues _).1 (.stop (op.kind_continues _).2))
        (unary_kinds r reprintable.1.2 (by simp) (.stop (by simp))))
      (stmts_seq t reprintable.2 (closes_cons (.inl rfl) _)) (.none noElse)) calls
  | .cond (.unop op arg) t (some e), reprintable, _, _, _, _, calls => by
    simp only [Expr.reprintable, Expr.isOperation, Bool.true_and, Bool.and_eq_true] at reprintable
    simp only [Expr.kinds, List.cons_append, List.append_assoc, List.nil_append]
    exact .calls (.cond (level_unop (unary_kinds arg reprintable.1.1 (by simp) (.stop (by simp))))
      (stmts_seq t reprintable.1.2 (closes_cons (.inl rfl) _))
      (.some (stmts_seq e reprintable.2 (closes_cons (.inl rfl) _)))) calls
  | .cond (.binop op l r) t (some e), reprintable, _, _, _, _, calls => by
    simp only [Expr.reprintable, Expr.isOperation, Bool.true_and, Bool.and_eq_true] at reprintable
    simp only [Expr.kinds, List.cons_append, List.append_assoc, List.nil_append]
    exact .calls (.cond (level_binop
        (unary_kinds l reprintable.1.1.1 (op.kind_continues _).1 (.stop (op.kind_continues _).2))
        (unary_kinds r reprintable.1.1.2 (by simp) (.stop (by simp))))
      (stmts_seq t reprintable.1.2 (closes_cons (.inl rfl) _))
      (.some (stmts_seq e reprintable.2 (closes_cons (.inl rfl) _)))) calls
  -- a test that is no operation prints without the parentheses the grammar wants
  | .cond (.ident _) _ els, reprintable, _, _, _, _, _
  | .cond (.int _) _ els, reprintable, _, _, _, _, _
  | .cond (.bool _) _ els, reprintable, _, _, _, _, _
  | .cond (.cond ..) _ els, reprintable, _, _, _, _, _
  | .cond (.func ..) _ els, reprintable, _, _, _, _, _
  | .cond (.call ..) _ els, reprintable, _, _, _, _, _ => by
    cases els <;> simp [Expr.reprintable, Expr.isOperation] at reprintable
  | .func params body, reprintable, _, _, _, _, calls => by
    simp only [Expr.reprintable] at reprintable
    simp only [Expr.kinds, List.cons_append, List.append_assoc, List.nil_append]
    exact .calls
      (.func (params_reads params) (stmts_seq body reprintable (closes_cons (.inl rfl) _))) calls
  | .call callee args, reprintable, rest, _, _, _, calls => by
    simp only [Expr.reprintable, Bool.and_eq_true] at reprintable
    simp only [Expr.kinds, List.cons_append, List.append_assoc, List.nil_append]
    have args_read : Args (argKinds args ++ .rparen :: rest) args rest := by
      cases args with
      | nil => exact .none
      | cons a more => exact .some (exprs_reads (a :: more) (by simp) reprintable.2)
    exact unary_kinds callee reprintable.1 (by simp) (.call args_read calls)

theorem exprs_reads : (args : List Expr) → args ≠ [] → argsReprintable args →
    ∀ {rest}, Exprs (argKinds args ++ .rparen :: rest) args (.rparen :: rest)
  | [], nonempty, _, _ => absurd rfl nonempty
  | [a], _, reprintable, _ => by
    simp only [argsReprintable, Bool.and_true] at reprintable
    exact .last (level_of_unary (unary_kinds a reprintable (by simp) (.stop (by simp)))
      (rparen_ends _)) (by simp)
  | a :: b :: more, _, reprintable, _ => by
    rw [argsReprintable, Bool.and_eq_true] at reprintable
    simp only [argKinds, List.cons_append, List.append_assoc]
    exact .more (level_of_unary (unary_kinds a reprintable.1 (by simp) (.stop (by simp)))
      (by simp [Token.Kind.precedence])) (exprs_reads (b :: more) (by simp) reprintable.2)

theorem statement_kinds : (s : Stmt) → s.reprintable →
    ∀ {rest}, (∀ e, s = .expr e → Closes rest) → Statement (s.kinds ++ rest) s rest
  | .bind name value, reprintable, _, _ => by
    simp only [Stmt.reprintable] at reprintable
    simp only [Stmt.kinds, List.cons_append, List.append_assoc, List.nil_append]
    exact .bind (level_of_unary (unary_kinds value reprintable (by simp) (.stop (by simp)))
      (by simp [Token.Kind.precedence]))
  | .ret none, _, _, _ => .retNone rfl
  | .ret (some value), reprintable, rest, _ => by
    simp only [Stmt.reprintable] at reprintable
    simp only [Stmt.kinds, List.cons_append, List.append_assoc, List.nil_append]
    have level : Level 1 (value.kinds ++ .semicolon :: rest) value (.semicolon :: rest) :=
      level_of_unary (unary_kinds value reprintable (by simp) (.stop (by simp)))
        (by simp [Token.Kind.precedence])
    have statement := Statement.retSome level
    -- the `;` ends the value, so nothing before it is skipped
    have kept : (Token.Kind.semicolon :: rest).dropWhile (fun k => !endsReturn k) =
        .semicolon :: rest := by simp [endsReturn]
    rwa [kept] at statement
  | .expr e, reprintable, rest, follows => by
    simp only [Stmt.reprintable] at reprintable
    have closes := follows e rfl
    have stays : dropSemicolon rest = rest :=
      dropSemicolon_of_head fun head => (closes .semicolon (by simp [head])).2.2 rfl
    have level : Level 1 (e.kinds ++ rest) e rest :=
      level_of_unary
        (unary_kinds e reprintable (fun head => (closes .kwElse (by simp [head])).2.1 rfl)
          (.stop fun head => by
            simpa [Token.Kind.precedence] using (closes .lparen (by simp [head])).1))
        fun k mem => (closes k mem).1
    have statement := Statement.expr level
    rwa [stays] at statement

theorem stmts_seq : (ss : List Stmt) → stmtsReprintable ss →
    ∀ {close rest}, Closes (close :: rest) →
      Seq close (stmtsKinds ss ++ close :: rest) ss (close :: rest)
  | [], _, _, _, _ => .stop (by simp [stmtsKinds])
  | s :: more, reprintable, _, _, closes => by
    simp only [stmtsReprintable, Bool.and_eq_true] at reprintable
    simp only [stmtsKinds, List.append_assoc]
    refine .stmt (statement_kinds s reprintable.1.1 fun e expr => ?_)
      (stmts_seq more reprintable.2 closes)
    subst expr
    cases more with
    | nil => exact closes
    | cons t more =>
      simp only [stmtsKinds, List.append_assoc]
      exact stmt_kinds_closes (by simpa using reprintable.1.2) _

end

theorem level_literals {a b : Int32} {k k' : Token.Kind} {p : Nat} {op : BinOp}
    (spells : infixAt p k = some op) (binds : 1 ≤ p) (zero : k'.precedence = 0)
    (rest : List Token.Kind) :
    Level 1 (.int a :: k :: .int b :: k' :: rest) (.binop op (.int a) (.int b)) (k' :: rest) := by
  have right : Level (p + 1) (.int b :: k' :: rest) (.int b) (k' :: rest) :=
    level_of_unary (.calls .int (.stop (by rintro ⟨⟩; simp [Token.Kind.precedence] at zero)))
      (by simpa using zero)
  have notCall : k ≠ .lparen := by
    rintro rfl
    rw [infixAt_lparen] at spells
    cases spells
  exact level_iff_rise.2 ⟨.int a, _, .calls .int (.stop (by simpa using notCall)),
    (rise_binop_iff spells binds).2
      ⟨.int b, _, right, Rise.refl (quiet_of_precedence zero 1 rest)⟩⟩

theorem reads_kinds (p : Program) (reprintable : p.reprintable) : Reads (p.kinds ++ [.eof]) p :=
  stmts_seq p.stmts reprintable (closes_cons (.inr rfl) [])

end Grammar

open Monkey.Parser Monkey.Parse in
theorem parseWith_of_reads {limit : Nat} {src : List UInt8} {ts : List Token} {last : Token}
    (scanned : Token.scan src = (ts, .ok last)) (fits : ts.length + 1 ≤ limit) {prog : Program}
    (reads : Grammar.Reads (ts.map Token.kind ++ [.eof]) prog) :
    Program.parseWith limit src = .ok prog := by
  have real := Token.scan_real scanned
  have ended := (Token.scanFrom_reads scanned).2
  have valid := ofScan_valid limit real ended
  have view := view_ofScan limit real ended
  have errors := errors_ofScan (ts, .ok last) limit
  have limited := limit_ofScan (ts, .ok last) limit
  unfold Program.parseWith
  rw [scanned]
  dsimp only
  generalize Parser.ofScan (ts, .ok last) limit = p at *
  have budget : p.left < p.limit := by
    rw [limited, left, rest, view]
    cases ts <;> simp at fits ⊢ <;> omega
  have follows := program_follows _ #[] p valid budget (left_le_rounds p)
  obtain ⟨q, run, clean, -⟩ := follows.complete prog.stmts [.eof]
    ⟨prog.stmts, by simp, by rw [view]; exact reads⟩
  rw [run]
  exact (finish_ok_iff (follows.reach_ok run).valid).2 ⟨by rw [clean, errors], rfl⟩

end Monkey
