import Monkey.Token
/-!
# Syntax trees

A program is a list of statements. A statement binds a name, returns (with or without a value),
or evaluates an expression. Expressions are identifiers, 32-bit integer literals, booleans,
unary and binary operations, conditionals with an optional `else` block, function literals and
calls. A block is a list of statements.

Every tree prints as text in one fixed, fully parenthesised way: operations inside parentheses,
statements of a block between `{ ` and ` }` with single spaces, statements of a program on lines
of their own.
-/

namespace Monkey

/-- The unary operators: logical not and negation. -/
inductive UnOp where
  | not
  | neg
deriving DecidableEq, Repr

/-- The binary operators. -/
inductive BinOp where
  | add
  | sub
  | mul
  | div
  | lt
  | gt
  | eq
  | ne
deriving DecidableEq, Repr

mutual

/-- Expressions. -/
inductive Expr where
  | ident (name : String)
  | int (value : Int32)
  | bool (value : Bool)
  | unop (op : UnOp) (arg : Expr)
  | binop (op : BinOp) (lhs rhs : Expr)
  | cond (test : Expr) (thenBlock : List Stmt) (elseBlock : Option (List Stmt))
  | func (params : List String) (body : List Stmt)
  | call (callee : Expr) (args : List Expr)

/-- Statements; a `return` may lack its value. -/
inductive Stmt where
  | bind (name : String) (value : Expr)
  | ret (value : Option Expr)
  | expr (e : Expr)

end

/-- A program: its statements in order. -/
structure Program where
  stmts : List Stmt

namespace UnOp

/-- The operator's spelling. -/
def symbol : UnOp → String
  | not => "!"
  | neg => "-"

end UnOp

namespace BinOp

/-- The operator's spelling. -/
def symbol : BinOp → String
  | add => "+"
  | sub => "-"
  | mul => "*"
  | div => "/"
  | lt => "<"
  | gt => ">"
  | eq => "=="
  | ne => "!="

end BinOp

/-- Texts joined with a separator between neighbours. -/
def joinWith (sep : String) : List String → String
  | [] => ""
  | [s] => s
  | s :: rest => s ++ sep ++ joinWith sep rest

mutual

/-- The text of an expression. -/
def Expr.render : Expr → String
  | .ident name => name
  | .int v => toString v.toInt
  | .bool b => if b then "true" else "false"
  | .unop op arg => "(" ++ op.symbol ++ arg.render ++ ")"
  | .binop op l r => "(" ++ l.render ++ " " ++ op.symbol ++ " " ++ r.render ++ ")"
  | .cond test t none => "if " ++ test.render ++ " " ++ renderBlock t
  | .cond test t (some e) => "if " ++ test.render ++ " " ++ renderBlock t ++ " else " ++ renderBlock e
  | .func params body => "fn(" ++ joinWith ", " params ++ ") " ++ renderBlock body
  | .call callee args => callee.render ++ "(" ++ renderArgs args ++ ")"

/-- The texts of call arguments, joined by commas. -/
def renderArgs : List Expr → String
  | [] => ""
  | [a] => a.render
  | a :: rest => a.render ++ ", " ++ renderArgs rest

/-- The text of a statement: bindings and returns end in a semicolon, expressions stand bare. -/
def Stmt.render : Stmt → String
  | .bind name value => "let " ++ name ++ " = " ++ value.render ++ ";"
  | .ret none => "return;"
  | .ret (some v) => "return " ++ v.render ++ ";"
  | .expr e => e.render

/-- The texts of statements joined by a separator. -/
def renderStmts (sep : String) : List Stmt → String
  | [] => ""
  | [s] => s.render
  | s :: rest => s.render ++ sep ++ renderStmts sep rest

/-- The text of a block: `{}` when empty, else its statements between braces, space-separated. -/
def renderBlock : List Stmt → String
  | [] => "\x7b\x7d"
  | s :: rest => "\x7b " ++ renderStmts " " (s :: rest) ++ " \x7d"

end

/-- The text of a program: one statement per line. -/
def Program.render (p : Program) : String := renderStmts "\n" p.stmts

end Monkey
