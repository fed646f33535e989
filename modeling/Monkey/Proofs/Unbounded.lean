import Monkey.Proofs.LexicalErrors

/-!
# The parser with unbounded loops

`Parse` gives each of its loops as many rounds as there are scanned tokens left when the loop
starts, so it is total by construction, but that bound is not in the source: there the program
loop, the block loop, the operator loop, the parameter and argument lists and the three skips
run while their tests hold, however long that is. `Unbounded` writes them so. Each of its
functions is given a number of unfoldings, spends one on entry and passes the rest to the calls
it makes, each round of a loop being a call; a run that needs more unfoldings than it was given
is cut short, which is the only way it yields `none`. The steps between the loops are the
parser's own, lifted (`Unbounded.lift`).

A loop that neither moved on nor stopped would cut every run short, whatever the unfoldings.
`Proofs.ParseEnds` shows that this never happens.

The measure of that proof is `Parser.toEnd`, the number of moves that bring the end of input to
the current token. `Parser.EndsLast` says that no real token comes after an end of input in
view; it holds of every parser over a scan and is kept by every move, and under it every move
from a real token brings the end one move nearer (`Parser.EndsLast.toEnd_advance`), including
the moves after a lexical error, where the next token in view is a fresh end of input.
-/

set_option autoImplicit false
set_option relaxedAutoImplicit false

namespace Monkey

/-- Parse steps given a number of unfoldings: they halt as parse steps do, and yield `none` when
cut short. -/
abbrev UnboundedM := ExceptT Halt (StateT Parser Option)

namespace Unbounded

open Parse (next current upcoming record expected expectNext fail)

/-- A run cut short: it needed more unfoldings than it was given. -/
def stuck {α : Type} : UnboundedM α := ExceptT.mk fun _ => none

/-- A parse step, which is never cut short. -/
def lift {α : Type} (x : ParseM α) : UnboundedM α := ExceptT.mk fun p =>
  match x.run p with
  | .ok a q => some (.ok a, q)
  | .error h q => some (.error h, q)

/-- Moves on while the state satisfies `cond`. -/
def skipWhile (cond : Parser → Bool) : Nat → UnboundedM Unit
  | 0 => stuck
  | fuel + 1 => do
    if cond (← get) then
      lift next
      skipWhile cond fuel

/-- Moves onto the next semicolon, without leaving the enclosing block or passing the end. -/
def skipToStatementEnd (fuel : Nat) : UnboundedM Unit :=
  skipWhile (fun p => p.cur.kind != .semicolon && p.peek.kind != .eof && p.peek.kind != .rbrace)
    fuel

/-- Moves on past the value of a `return` up to the next semicolon, closing brace or end. -/
def skipReturnTail (fuel : Nat) : UnboundedM Unit :=
  skipWhile (fun p => p.peek.kind != .semicolon && p.peek.kind != .rbrace && p.peek.kind != .eof)
    fuel

/-- Moves onto the last token of a given-up statement. -/
def skipGivenUp (opened : Int) : Nat → UnboundedM Unit
  | 0 => stuck
  | fuel + 1 => do
    let p ← get
    if p.cur.kind == .eof || p.peek.kind == .eof then return
    match p.cur.kind with
    | .lbrace =>
      lift next
      skipGivenUp (opened + 1) fuel
    | .rbrace =>
      if opened - 1 ≤ 0 && p.peek.kind != .semicolon then return
      lift next
      skipGivenUp (opened - 1) fuel
    | .semicolon =>
      if opened ≤ 0 then return
      lift next
      skipGivenUp opened fuel
    | _ =>
      lift next
      skipGivenUp opened fuel

/-- The rest of a parameter list, from the current token, which should be a name. -/
def paramsFrom (acc : Array String) : Nat → UnboundedM (List String)
  | 0 => stuck
  | fuel + 1 => do
    let c ← lift current
    match c.kind with
    | .ident name =>
      let acc := acc.push name
      let t ← lift upcoming
      if t.kind == .comma then
        lift next
        lift next
        paramsFrom acc fuel
      else if t.kind == .rparen then
        lift next
        return acc.toList
      else
        lift (expected (.token .rparen) t)
        lift fail
    | _ =>
      lift (expected .ident c)
      lift fail

/-- A parameter list; the current token is its `(`, and it ends on the `)`. -/
def params (fuel : Nat) : UnboundedM (List String) := do
  if (← lift upcoming).kind == .rparen then
    lift next
    return []
  lift next
  paramsFrom #[] fuel

mutual

/-- An expression of operators binding tighter than `min`, with `b` nested expressions still
allowed and `opened` blocks open. -/
def expression : Nat → Nat → Nat → Nat → UnboundedM Expr
  | 0, _, _, _ => stuck
  | _ + 1, 0, opened, _ => do
    let p ← get
    lift (record p.cur (.tooDeep p.limit))
    throw (.abandoned opened)
  | fuel + 1, b + 1, opened, min => do
    let left ← operand fuel b opened
    operators fuel b opened min left
termination_by structural fuel _ _ _ => fuel

/-- The operators after `left`, while they bind tighter than `min`. -/
def operators : Nat → Nat → Nat → Nat → Expr → UnboundedM Expr
  | 0, _, _, _, _ => stuck
  | fuel + 1, b, opened, min, left => do
    let t ← lift upcoming
    if t.kind == .semicolon || t.kind.precedence ≤ min then return left
    if t.kind == .lparen then
      lift next
      let e ← callArgs fuel b opened left
      operators fuel b opened min e
    else
      match t.kind.binOp? with
      | some op =>
        lift next
        lift next
        let right ← expression fuel b opened t.kind.precedence
        operators fuel b opened min (.binop op left right)
      | none => return left
termination_by structural fuel _ _ _ _ => fuel

/-- The expression that the current token starts. -/
def operand : Nat → Nat → Nat → UnboundedM Expr
  | 0, _, _ => stuck
  | fuel + 1, b, opened => do
    let c ← lift current
    match c.kind.lead with
    | .leaf e => return e
    | .prefixed op =>
      lift next
      return .unop op (← expression fuel b opened unaryPrecedence)
    | .group =>
      lift next
      let inner ← expression fuel b opened 0
      if ← lift (expectNext (.token .rparen)) then return inner else lift fail
    | .cond => conditional fuel b opened
    | .func => function fuel b opened
    | .none =>
      lift (expected .expression c)
      lift fail
termination_by structural fuel _ _ => fuel

/-- The arguments of a call; the current token is its `(`, and it ends on the `)`. -/
def callArgs : Nat → Nat → Nat → Expr → UnboundedM Expr
  | 0, _, _, _ => stuck
  | fuel + 1, b, opened, callee => do
    if (← lift upcoming).kind == .rparen then
      lift next
      return .call callee []
    lift next
    let args ← argsFrom fuel b opened #[]
    if ← lift (expectNext (.token .rparen)) then return .call callee args else lift fail
termination_by structural fuel _ _ _ => fuel

/-- The arguments from the current token on, separated by commas. -/
def argsFrom : Nat → Nat → Nat → Array Expr → UnboundedM (List Expr)
  | 0, _, _, _ => stuck
  | fuel + 1, b, opened, acc => do
    let arg ← expression fuel b opened 0
    let acc := acc.push arg
    if (← lift upcoming).kind == .comma then
      lift next
      lift next
      argsFrom fuel b opened acc
    else return acc.toList
termination_by structural fuel _ _ _ => fuel

/-- `if (test) { ... }`, with an optional `else { ... }`. -/
def conditional : Nat → Nat → Nat → UnboundedM Expr
  | 0, _, _ => stuck
  | fuel + 1, b, opened => do
    unless ← lift (expectNext (.token .lparen)) do lift fail
    lift next
    let test ← expression fuel b opened 0
    unless ← lift (expectNext (.token .rparen)) do lift fail
    unless ← lift (expectNext (.token .lbrace)) do lift fail
    let thenBlock ← block fuel b opened
    if (← lift upcoming).kind == .kwElse then
      lift next
      unless ← lift (expectNext (.token .lbrace)) do lift fail
      let elseBlock ← block fuel b opened
      return .cond test thenBlock (some elseBlock)
    return .cond test thenBlock none
termination_by structural fuel _ _ => fuel

/-- `fn(params) { ... }`. -/
def function : Nat → Nat → Nat → UnboundedM Expr
  | 0, _, _ => stuck
  | fuel + 1, b, opened => do
    unless ← lift (expectNext (.token .lparen)) do lift fail
    let ps ← params fuel
    unless ← lift (expectNext (.token .lbrace)) do lift fail
    return .func ps (← block fuel b opened)
termination_by structural fuel _ _ => fuel

/-- A block; the current token is its `{`, and it ends on the matching `}`. -/
def block : Nat → Nat → Nat → UnboundedM (List Stmt)
  | 0, _, _ => stuck
  | fuel + 1, b, opened => do
    lift next
    let stmts ← blockFrom fuel b (opened + 1) #[]
    let c ← lift current
    if c.kind == .eof then lift (expected (.token .rbrace) c)
    return stmts
termination_by structural fuel _ _ => fuel

/-- The statements of a block from the current token on, until its `}` or the end of input. -/
def blockFrom : Nat → Nat → Nat → Array Stmt → UnboundedM (List Stmt)
  | 0, _, _, _ => stuck
  | fuel + 1, b, opened, acc => do
    let c ← lift current
    if c.kind == .rbrace || c.kind == .eof then return acc.toList
    match ← statement fuel b opened with
    | some s =>
      lift next
      blockFrom fuel b opened (acc.push s)
    | none =>
      if (← lift current).kind == .rbrace then return acc.toList
      lift next
      blockFrom fuel b opened acc
termination_by structural fuel _ _ _ => fuel

/-- The statement a current token of kind `k` starts, before any recovery. -/
def statementBody : Nat → Nat → Nat → Token.Kind → UnboundedM (Option Stmt)
  | 0, _, _, _ => stuck
  | _ + 1, _, _, .semicolon => pure none
  | fuel + 1, b, opened, .kwLet => letStatement fuel b opened
  | fuel + 1, b, opened, .kwReturn => returnStatement fuel b opened
  | fuel + 1, b, opened, _ => do
    let e ← expression fuel b opened 0
    if (← lift upcoming).kind == .semicolon then lift next
    return some (.expr e)
termination_by structural fuel _ _ _ => fuel

/-- The statement that the current token starts; a malformed one is dropped. -/
def statement : Nat → Nat → Nat → UnboundedM (Option Stmt)
  | 0, _, _ => stuck
  | fuel + 1, b, opened => do
    let c ← lift current
    tryCatch (statementBody fuel b opened c.kind) fun h => lift (Parse.dropFailed h)
termination_by structural fuel _ _ => fuel

/-- `let name = value;`, the semicolon optional. -/
def letStatement : Nat → Nat → Nat → UnboundedM (Option Stmt)
  | 0, _, _ => stuck
  | fuel + 1, b, opened => do
    unless ← lift (expectNext .ident) do
      skipToStatementEnd fuel
      return none
    let name := (← lift current).identName
    unless ← lift (expectNext (.token .assign)) do
      skipToStatementEnd fuel
      return none
    lift next
    let value ← expression fuel b opened 0
    if (← lift upcoming).kind == .semicolon then lift next
    return some (.bind name value)
termination_by structural fuel _ _ => fuel

/-- `return;` or `return value;`, the value followed by anything up to the next semicolon,
closing brace or end of input. -/
def returnStatement : Nat → Nat → Nat → UnboundedM (Option Stmt)
  | 0, _, _ => stuck
  | fuel + 1, b, opened => do
    let t ← lift upcoming
    if t.kind == .semicolon || t.kind == .rbrace || t.kind == .eof then
      if t.kind == .semicolon then lift next
      return some (.ret none)
    lift next
    let value ← expression fuel b opened 0
    skipReturnTail fuel
    if (← lift upcoming).kind == .semicolon then lift next
    return some (.ret (some value))
termination_by structural fuel _ _ => fuel

end

/-- The top-level statements from the current token on, until the end of input or the first
lexical error. A given-up statement is skipped whole. -/
def program (acc : Array Stmt) : Nat → UnboundedM (List Stmt)
  | 0 => stuck
  | fuel + 1 => do
    let p ← get
    if p.cur.kind == .eof then return acc.toList
    let acc ← try
        match ← statement fuel p.limit 0 with
        | some s => pure (acc.push s)
        | none => pure acc
      catch
        | .abandoned opened => do
          skipGivenUp opened fuel
          pure acc
        | .failed => pure acc
    if (← get).lexError.isSome then return acc.toList
    lift next
    program acc fuel

/-- The outcome of a finished run of the top level. -/
def finish : Except Halt (List Stmt) × Parser → Except ParseFailure Program
  | (.ok stmts, p) => p.finish stmts
  | (.error _, p) => p.finish []

/-- Parses a source with a nesting limit, within a number of unfoldings. -/
def parseWith (fuel limit : Nat) (src : List UInt8) : Option (Except ParseFailure Program) :=
  ((program #[] fuel).run.run (Parser.ofScan (Token.scan src) limit)).map finish

end Unbounded

namespace Parser

/-- No real token comes after an end of input in view: the scanned tokens still to read are
real, the scan's own end is an end of input, and once an end of input (or the lexical error,
which brings one) is in view nothing is left to read. -/
structure EndsLast (p : Parser) : Prop where
  pending : ∀ t ∈ p.pending, t.kind ≠ .eof
  ending : ∀ t, p.ending = .ok t → t.kind = .eof
  peekEnd : p.peek.kind = .eof → p.pending = []
  curEnd : p.cur.kind = .eof → p.peek.kind = .eof
  met : p.lexError.isSome → p.peek.kind = .eof

/-- How many moves bring the end of input to the current token. -/
def toEnd (p : Parser) : Nat :=
  if p.cur.kind = .eof then 0 else if p.peek.kind = .eof then 1 else p.pending.length + 2

theorem toEnd_le_rounds (p : Parser) : p.toEnd ≤ p.rounds := by
  unfold toEnd rounds
  split_ifs <;> omega

theorem toEnd_eq_zero {p : Parser} : p.toEnd = 0 ↔ p.cur.kind = .eof := by
  unfold toEnd
  split_ifs <;> simp_all

theorem EndsLast.two_le_toEnd {p : Parser} (ends : p.EndsLast) (real : p.peek.kind ≠ .eof) :
    2 ≤ p.toEnd := by
  have cur : p.cur.kind ≠ .eof := fun ended => real (ends.curEnd ended)
  unfold toEnd
  rw [if_neg cur, if_neg real]
  omega

@[simp] theorem toEnd_record (p : Parser) (e : SyntaxError) :
    { p with errors := p.errors.push e }.toEnd = p.toEnd := rfl

theorem EndsLast.record {p : Parser} (ends : p.EndsLast) (e : SyntaxError) :
    { p with errors := p.errors.push e }.EndsLast :=
  ⟨ends.pending, ends.ending, ends.peekEnd, ends.curEnd, ends.met⟩

theorem EndsLast.advance {p : Parser} (ends : p.EndsLast) : p.advance.EndsLast := by
  rcases advance_cases p with ⟨met, step⟩ | ⟨unmet, t, rest, pending, step⟩ |
      ⟨_, pending, t, ended, step⟩ | ⟨_, pending, e, _, step⟩ <;> rw [step]
  · -- past the lexical error nothing is left to read
    have empty := ends.peekEnd (ends.met met)
    exact ⟨ends.pending, ends.ending, fun _ => empty, fun _ => rfl, fun _ => rfl⟩
  · have real := ends.pending
    rw [pending] at real
    refine ⟨fun u mem => real u (List.mem_cons_of_mem _ mem), ends.ending,
      fun ended => absurd ended (real t List.mem_cons_self), fun ended => ?_,
      fun met => by simp [unmet] at met⟩
    rw [ends.peekEnd ended] at pending
    cases pending
  · exact ⟨by simp [pending], ends.ending, fun _ => pending, fun _ => ends.ending t ended,
      fun _ => ends.ending t ended⟩
  · exact ⟨by simp [pending], ends.ending, fun _ => pending, fun _ => rfl, fun _ => rfl⟩

theorem EndsLast.toEnd_advance {p : Parser} (ends : p.EndsLast) :
    p.advance.toEnd = p.toEnd - 1 := by
  rcases advance_cases p with ⟨met, step⟩ | ⟨_, t, rest, pending, step⟩ |
      ⟨_, pending, t, ended, step⟩ | ⟨_, pending, e, _, step⟩ <;> rw [step]
  · have peek := ends.met met
    simp only [toEnd, peek, Token.eofAt]
    split_ifs <;> simp
  · have peek : p.peek.kind ≠ .eof := fun ended => by simp [ends.peekEnd ended] at pending
    have cur : p.cur.kind ≠ .eof := fun ended => peek (ends.curEnd ended)
    have real := ends.pending t (by simp [pending])
    simp [toEnd, peek, cur, real, pending]
  · have last := ends.ending t ended
    have curEnd := ends.curEnd
    simp only [toEnd, last, pending]
    split_ifs <;> simp_all
  · have curEnd := ends.curEnd
    simp only [toEnd, pending, Token.eofAt]
    split_ifs <;> simp_all

theorem endsLast_of_real {ts : List Token} {last : Except LexError Token} (limit : Nat)
    (real : ∀ t ∈ ts, t.kind ≠ .eof) (ended : ∀ t, last = .ok t → t.kind = .eof) :
    (ofScan (ts, last) limit).EndsLast := by
  match ts, real, last, ended with
  | [], _, .ok t, ended => constructor <;> simp_all [ofScan, Parser.advance]
  | [], _, .error e, _ => constructor <;> simp_all [ofScan, Parser.advance, Token.eofAt]
  | [t], real, .ok t', ended => constructor <;> simp_all [ofScan, Parser.advance]
  | [t], real, .error e, _ => constructor <;> simp_all [ofScan, Parser.advance, Token.eofAt]
  | t :: t' :: ts, real, last, _ => constructor <;> simp_all [ofScan, Parser.advance]

theorem endsLast_ofScan (src : List UInt8) (limit : Nat) :
    (ofScan (Token.scan src) limit).EndsLast := by
  have real : ∀ t ∈ (Token.scan src).1, t.kind ≠ .eof := Token.scanFrom_real Pos.start src
  have ended : ∀ t, (Token.scan src).2 = .ok t → t.kind = .eof := fun t scanned =>
    (Token.scanFrom_reads (show Token.scan src = ((Token.scan src).1, .ok t) by
      rw [← scanned])).2
  exact endsLast_of_real limit real ended

end Parser

end Monkey
