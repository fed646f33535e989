import Monkey.Syntax
import Monkey.Syntax.Error
/-!
# Parsing tokens into a program

The parser reads the scanned tokens with two tokens in view: the current one and the next.
Statements start with `let`, `return` or an expression; expressions are read by precedence
climbing, where an operator continues the expression only while it binds tighter than the
surrounding one, so operators of equal strength group to the left.

A malformed statement records a syntax error and is dropped; parsing goes on with the next
statement, so one pass reports every malformed statement. A malformed `let` first skips to its
semicolon. Expressions nesting past the limit record one error and give up the whole top-level
statement, which is then skipped. Once scanning meets a lexical error, the tokens after it read
as end of input placed at the current token, and the parse fails with that error.

Every recursion goes through `expression`, which spends one unit of the nesting budget, and
every loop consumes a token per round, so the parser is total.
-/

namespace Monkey

/-- Why a parse function stopped without a result. -/
inductive Halt where
  /-- The construct is malformed and its error recorded; the statement is dropped. -/
  | failed
  /-- Expressions nested past the limit while `opened` blocks were open; the whole top-level
  statement is given up. -/
  | abandoned (opened : Nat)

/-- The parser's state: the current and next tokens, the scanned tokens after them, how scanning
ended, the lexical error once it is reached, the syntax errors recorded so far, and the nesting
limit. -/
structure Parser where
  cur : Token
  peek : Token
  pending : List Token
  ending : Except LexError Token
  lexError : Option LexError
  errors : Array SyntaxError
  limit : Nat

/-- Parse steps change the parser's state and may halt. -/
abbrev ParseM := EStateM Halt Parser

namespace Parser

/-- The nesting limit used when none is given. -/
def defaultLimit : Nat := 2048

/-- The nesting limit a requested number stands for: itself when positive, else the default. -/
def limitOf (n : Int) : Nat := if n > 0 then n.toNat else defaultLimit

/-- Moves one token on. After the scanned tokens comes the end-of-input token, again and again;
after a lexical error, an end-of-input token at the place of the new current token. -/
def advance (p : Parser) : Parser :=
  let cur := p.peek
  match p.lexError with
  | some _ => { p with cur, peek := Token.eofAt cur.pos }
  | none =>
    match p.pending with
    | t :: rest => { p with cur, peek := t, pending := rest }
    | [] =>
      match p.ending with
      | .ok eofTok => { p with cur, peek := eofTok }
      | .error e => { p with cur, peek := Token.eofAt cur.pos, lexError := some e }

/-- A parser over a scan, with its first two tokens in view. -/
def ofScan (scan : List Token × Except LexError Token) (limit : Nat) : Parser :=
  let blank : Token := Token.eofAt ⟨0, 0⟩
  let p : Parser :=
    { cur := blank, peek := blank, pending := scan.1, ending := scan.2, lexError := none,
      errors := #[], limit }
  p.advance.advance

/-- A bound on the rounds of any loop from here: each round consumes a scanned token. -/
def rounds (p : Parser) : Nat := p.pending.length + 2

end Parser

/-- What the first token of an operand makes of it. -/
inductive Lead where
  /-- The token is the whole operand: a name or a literal. -/
  | leaf (e : Expr)
  /-- A unary operator applied to the expression after it. -/
  | prefixed (op : UnOp)
  /-- An opening parenthesis: an expression and its closing parenthesis follow. -/
  | group
  /-- The keyword of a conditional. -/
  | cond
  /-- The keyword of a function literal. -/
  | func
  /-- The token cannot start an operand. -/
  | none

namespace Token.Kind

/-- How tightly a token binds as an infix operator; zero for tokens that are none. -/
def precedence : Token.Kind → Nat
  | .eq | .ne => 1
  | .lt | .gt => 2
  | .plus | .minus => 3
  | .star | .slash => 4
  | .lparen => 6
  | _ => 0

/-- The binary operator a token spells. -/
def binOp? : Token.Kind → Option BinOp
  | .plus => some .add
  | .minus => some .sub
  | .star => some .mul
  | .slash => some .div
  | .lt => some .lt
  | .gt => some .gt
  | .eq => some .eq
  | .ne => some .ne
  | _ => none

/-- How a token starts an operand. Classifying the token apart from the recursive parser keeps
the parser's own case split to the few ways an operand can start. -/
def lead : Token.Kind → Lead
  | .ident name => .leaf (.ident name)
  | .int v => .leaf (.int v)
  | .kwTrue => .leaf (.bool true)
  | .kwFalse => .leaf (.bool false)
  | .bang => .prefixed .not
  | .minus => .prefixed .neg
  | .lparen => .group
  | .kwIf => .cond
  | .kwFn => .func
  | _ => .none

end Token.Kind

/-- How tightly a unary operator binds its operand. -/
def unaryPrecedence : Nat := 5

namespace Parse

/-- Moves one token on. -/
def next : ParseM Unit := modify Parser.advance

/-- The current token. -/
def current : ParseM Token := do return (← get).cur

/-- The next token. -/
def upcoming : ParseM Token := do return (← get).peek

/-- Records a syntax error at a token. -/
def record (tok : Token) (fault : SyntaxFault) : ParseM Unit :=
  modify fun p => { p with errors := p.errors.push ⟨tok, fault⟩ }

/-- Records that something else was wanted at a token. -/
def expected (want : Wanted) (got : Token) : ParseM Unit := record got (.expected want)

/-- Gives up the construct being read. -/
def fail {α : Type} : ParseM α := throw .failed

/-- Moves onto the next token when it is what is wanted, else records an error. -/
def expectNext (want : Wanted) : ParseM Bool := do
  let t ← upcoming
  if want.accepts t.kind then
    next
    return true
  else
    expected want t
    return false

/-- Moves on while the state satisfies `cond`, for at most `fuel` rounds. -/
def skipWhile (cond : Parser → Bool) : Nat → ParseM Unit
  | 0 => pure ()
  | fuel + 1 => do
    if cond (← get) then
      next
      skipWhile cond fuel

/-- Moves on while the state satisfies `cond`, as long as tokens last. -/
def skipAll (cond : Parser → Bool) : ParseM Unit := do
  skipWhile cond (← get).rounds

/-- Moves onto the next semicolon, without leaving the enclosing block or passing the end. -/
def skipToStatementEnd : ParseM Unit :=
  skipAll fun p => p.cur.kind != .semicolon && p.peek.kind != .eof && p.peek.kind != .rbrace

/-- Moves onto the last token of a given-up statement: its semicolon once every block open at the
failure is closed, or the closing brace itself when no semicolon follows it. -/
def skipGivenUp (opened : Int) : Nat → ParseM Unit
  | 0 => pure ()
  | fuel + 1 => do
    let p ← get
    if p.cur.kind == .eof || p.peek.kind == .eof then return
    match p.cur.kind with
    | .lbrace =>
      next
      skipGivenUp (opened + 1) fuel
    | .rbrace =>
      if opened - 1 ≤ 0 && p.peek.kind != .semicolon then return
      next
      skipGivenUp (opened - 1) fuel
    | .semicolon =>
      if opened ≤ 0 then return
      next
      skipGivenUp opened fuel
    | _ =>
      next
      skipGivenUp opened fuel

/-- The rest of a parameter list, from the current token, which should be a name. -/
def paramsFrom (acc : Array String) : Nat → ParseM (List String)
  | 0 => fail
  | fuel + 1 => do
    let c ← current
    match c.kind with
    | .ident name =>
      let acc := acc.push name
      let t ← upcoming
      if t.kind == .comma then
        next
        next
        paramsFrom acc fuel
      else if t.kind == .rparen then
        next
        return acc.toList
      else
        expected (.token .rparen) t
        fail
    | _ =>
      expected .ident c
      fail

/-- A parameter list; the current token is its `(`, and it ends on the `)`. -/
def params : ParseM (List String) := do
  if (← upcoming).kind == .rparen then
    next
    return []
  next
  paramsFrom #[] (← get).rounds

mutual

/-- An expression of operators binding tighter than `min`. `budget` is the number of nested
expressions still allowed and `opened` the number of open blocks. It starts on the expression's
first token and ends on its last. -/
def expression : Nat → Nat → Nat → ParseM Expr
  | 0, opened, _ => do
    let p ← get
    record p.cur (.tooDeep p.limit)
    throw (.abandoned opened)
  | b + 1, opened, min => do
    let left ← operand b opened
    let p ← get
    operators b opened min left p.rounds
termination_by budget _ _ => (budget, 0, 0)

/-- The operators after `left`, while they bind tighter than `min`. -/
def operators (b opened min : Nat) (left : Expr) : Nat → ParseM Expr
  | 0 => pure left
  | fuel + 1 => do
    let t ← upcoming
    if t.kind == .semicolon || t.kind.precedence ≤ min then return left
    if t.kind == .lparen then
      next
      let e ← callArgs b opened left
      operators b opened min e fuel
    else
      match t.kind.binOp? with
      | some op =>
        next
        next
        let right ← expression b opened t.kind.precedence
        operators b opened min (.binop op left right) fuel
      | none => return left
termination_by fuel => (b, 5, fuel)

/-- The expression that the current token starts: a literal, a name, a unary operation, a
parenthesised expression, a conditional or a function literal. -/
def operand (b opened : Nat) : ParseM Expr := do
  let c ← current
  match c.kind.lead with
  | .leaf e => return e
  | .prefixed op =>
    next
    return .unop op (← expression b opened unaryPrecedence)
  | .group =>
    next
    let inner ← expression b opened 0
    if ← expectNext (.token .rparen) then return inner else fail
  | .cond => conditional b opened
  | .func => function b opened
  | .none =>
    expected .expression c
    fail
termination_by (b, 6, 0)

/-- The arguments of a call; the current token is its `(`, and it ends on the `)`. -/
def callArgs (b opened : Nat) (callee : Expr) : ParseM Expr := do
  if (← upcoming).kind == .rparen then
    next
    return .call callee []
  next
  let args ← argsFrom b opened #[] (← get).rounds
  if ← expectNext (.token .rparen) then return .call callee args else fail
termination_by (b, 4, 0)

/-- The arguments from the current token on, separated by commas. -/
def argsFrom (b opened : Nat) (acc : Array Expr) : Nat → ParseM (List Expr)
  | 0 => pure acc.toList
  | fuel + 1 => do
    let arg ← expression b opened 0
    let acc := acc.push arg
    if (← upcoming).kind == .comma then
      next
      next
      argsFrom b opened acc fuel
    else return acc.toList
termination_by fuel => (b, 3, fuel)

/-- `if (test) { ... }`, with an optional `else { ... }`. -/
def conditional (b opened : Nat) : ParseM Expr := do
  unless ← expectNext (.token .lparen) do fail
  next
  let test ← expression b opened 0
  unless ← expectNext (.token .rparen) do fail
  unless ← expectNext (.token .lbrace) do fail
  let thenBlock ← block b opened
  if (← upcoming).kind == .kwElse then
    next
    unless ← expectNext (.token .lbrace) do fail
    let elseBlock ← block b opened
    return .cond test thenBlock (some elseBlock)
  return .cond test thenBlock none
termination_by (b, 5, 0)

/-- `fn(params) { ... }`. -/
def function (b opened : Nat) : ParseM Expr := do
  unless ← expectNext (.token .lparen) do fail
  let ps ← params
  unless ← expectNext (.token .lbrace) do fail
  return .func ps (← block b opened)
termination_by (b, 5, 0)

/-- A block; the current token is its `{`, and it ends on the matching `}`. Reaching the end of
input instead is an error, but the statements read so far still make the block. -/
def block (b opened : Nat) : ParseM (List Stmt) := do
  next
  let stmts ← blockFrom b (opened + 1) #[] (← get).rounds
  let c ← current
  if c.kind == .eof then expected (.token .rbrace) c
  return stmts
termination_by (b, 4, 0)

/-- The statements of a block from the current token on. -/
def blockFrom (b opened : Nat) (acc : Array Stmt) : Nat → ParseM (List Stmt)
  | 0 => pure acc.toList
  | fuel + 1 => do
    let c ← current
    if c.kind == .rbrace || c.kind == .eof then return acc.toList
    match ← statement b opened with
    | some s =>
      next
      blockFrom b opened (acc.push s) fuel
    | none =>
      if (← current).kind == .rbrace then return acc.toList
      next
      blockFrom b opened acc fuel
termination_by fuel => (b, 3, fuel)

/-- The statement that the current token starts, ending on its last token (its semicolon when
it has one); `none` when it is empty or malformed. -/
def statement (b opened : Nat) : ParseM (Option Stmt) := do
  let c ← current
  try
    match c.kind with
    | .semicolon => return none
    | .kwLet => letStatement b opened
    | .kwReturn => returnStatement b opened
    | _ =>
      let e ← expression b opened 0
      if (← upcoming).kind == .semicolon then next
      return some (.expr e)
  catch
    | .failed => return none
    | h => throw h
termination_by (b, 2, 0)

/-- `let name = value;`, the semicolon optional. -/
def letStatement (b opened : Nat) : ParseM (Option Stmt) := do
  unless ← expectNext .ident do
    skipToStatementEnd
    return none
  let name := (← current).identName
  unless ← expectNext (.token .assign) do
    skipToStatementEnd
    return none
  next
  let value ← expression b opened 0
  if (← upcoming).kind == .semicolon then next
  return some (.bind name value)
termination_by (b, 1, 0)

/-- `return;` or `return value;`. A value is followed by anything up to the next semicolon,
closing brace or end of input, which is passed over. -/
def returnStatement (b opened : Nat) : ParseM (Option Stmt) := do
  let t ← upcoming
  if t.kind == .semicolon || t.kind == .rbrace || t.kind == .eof then
    if t.kind == .semicolon then next
    return some (.ret none)
  next
  let value ← expression b opened 0
  skipAll fun p => p.peek.kind != .semicolon && p.peek.kind != .rbrace && p.peek.kind != .eof
  if (← upcoming).kind == .semicolon then next
  return some (.ret (some value))
termination_by (b, 1, 0)

end

/-- The top-level statements from the current token on, until the end of input or the first
lexical error. A given-up statement is skipped whole. -/
def program (acc : Array Stmt) : Nat → ParseM (List Stmt)
  | 0 => pure acc.toList
  | fuel + 1 => do
    let p ← get
    if p.cur.kind == .eof then return acc.toList
    let acc ← try
        match ← statement p.limit 0 with
        | some s => pure (acc.push s)
        | none => pure acc
      catch
        | .abandoned opened => do
          skipGivenUp opened (← get).rounds
          pure acc
        | .failed => pure acc
    if (← get).lexError.isSome then return acc.toList
    next
    program acc fuel

end Parse

/-- The outcome of a finished parse: the lexical error if one was reached, else the syntax
errors if any were recorded, else the program. -/
def Parser.finish (p : Parser) (stmts : List Stmt) : Except ParseFailure Program :=
  match p.lexError with
  | some e => .error (.lexical e p.errors.toList)
  | none => if p.errors.isEmpty then .ok ⟨stmts⟩ else .error (.syntactic p.errors.toList)

/-- Parses a source with a nesting limit for expressions. -/
def Program.parseWith (limit : Nat) (src : List UInt8) : Except ParseFailure Program :=
  let p := Parser.ofScan (Token.scan src) limit
  match (Parse.program #[] p.rounds).run p with
  | .ok stmts p' => p'.finish stmts
  | .error _ p' => p'.finish []

/-- Parses a source with the default nesting limit. -/
def Program.parse (src : List UInt8) : Except ParseFailure Program :=
  Program.parseWith Parser.defaultLimit src

end Monkey
