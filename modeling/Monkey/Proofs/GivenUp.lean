import Monkey.Proofs.Nesting

/-!
# Where parsing resumes after a statement is given up

Expressions nested past the limit record one error, at the token where the limit runs out, and
halt with `Halt.abandoned`. Every parse function passes that halt on as it is, without moving on
or recording more, up to the top level (`passesOn_of_parse`), so the last error of a given-up
statement is the nesting error, at the token the parser halted on.

The top level then skips the rest of the statement (`Parse.skipGivenUp`) and goes on after the
token the skip stops at. `skipLength` counts the tokens the skip moves over, from the kinds of
the tokens in view and the blocks open at the failure: it stops on a `;` once no block is open,
and on a `}` that closes the last open block unless a `;` follows it. The skip only moves
(`skipGivenUp_run`), so `given_up_statement_resumes` says what a given-up statement leaves behind:
the nesting error after those recorded before the limit ran out, and a parse that goes on
`skipLength` tokens past the failure.

Where a brace comes between the failure and the statement's `;`, that may be before the
statement's end: in `(fn() {});` at limit 1 the skip stops on the `}`, which no `;` follows, and
the `)` after it is read as the next statement (`function_literal_resumes_early`).
-/

set_option autoImplicit false
set_option relaxedAutoImplicit false

namespace Monkey

namespace Parser

/-- The last error recorded is that expressions nest too deep, at the current token. -/
def GaveUp (p : Parser) : Prop := p.errors.back? = some ⟨p.cur, .tooDeep p.limit⟩

end Parser

namespace Parse

open Monkey.Parser

/-- Every run of the step that halts giving its statement up halts where the nesting error was
recorded. -/
def PassesOn {α : Type} (x : ParseM α) : Prop :=
  ∀ p o q, x.run p = .error (.abandoned o) q → q.GaveUp

section PassesOn

variable {α β : Type}

theorem PassesOn.of_ok {x : ParseM α} (returns : ∀ p, ∃ a q, x.run p = .ok a q) : PassesOn x := by
  intro p o q halts
  obtain ⟨a, q', run⟩ := returns p
  rw [run] at halts
  cases halts

theorem PassesOn.pure (a : α) : PassesOn (Pure.pure a : ParseM α) :=
  .of_ok fun p => ⟨a, p, rfl⟩

theorem PassesOn.fail : PassesOn (Parse.fail : ParseM α) := by
  rintro p o q ⟨⟩

theorem PassesOn.fail_bind (k : α → ParseM β) : PassesOn (Parse.fail >>= k) := by
  rintro p o q ⟨⟩

theorem PassesOn.bind {x : ParseM α} {k : α → ParseM β} (first : PassesOn x)
    (second : ∀ a, PassesOn (k a)) : PassesOn (x >>= k) := by
  intro p o q halts
  rw [EStateM.run_bind] at halts
  cases run : x.run p with
  | ok a q' =>
    rw [run] at halts
    exact second a q' o q halts
  | error h q' =>
    rw [run] at halts
    cases halts
    exact first p o q run

theorem PassesOn.dropFailed {x : ParseM (Option Stmt)} (body : PassesOn x) :
    PassesOn (tryCatch x Parse.dropFailed) := by
  intro p o q halts
  rw [EStateM.run_tryCatch] at halts
  cases run : x.run p with
  | ok a q' =>
    rw [run] at halts
    cases halts
  | error h q' =>
    rw [run] at halts
    cases h with
    | failed => cases halts
    | abandoned o' =>
      cases halts
      exact body p _ _ run

theorem get_passesOn : PassesOn (MonadState.get : ParseM Parser) := .of_ok fun p => ⟨p, p, rfl⟩

theorem next_passesOn : PassesOn next := .of_ok fun p => ⟨(), p.advance, rfl⟩

theorem current_passesOn : PassesOn current := .of_ok fun p => ⟨p.cur, p, rfl⟩

theorem upcoming_passesOn : PassesOn upcoming := .of_ok fun p => ⟨p.peek, p, rfl⟩

theorem record_passesOn (tok : Token) (fault : SyntaxFault) : PassesOn (record tok fault) :=
  .of_ok fun _ => ⟨(), _, rfl⟩

theorem expectNext_passesOn (want : Wanted) : PassesOn (expectNext want) := by
  rw [expectNext]
  refine .bind upcoming_passesOn fun t => ?_
  split
  · exact .bind next_passesOn fun _ => .pure _
  · exact .bind (record_passesOn _ _) fun _ => .pure _

theorem skipWhile_passesOn (cond : Parser → Bool) (fuel : Nat) :
    PassesOn (skipWhile cond fuel) := by
  induction fuel with
  | zero => exact .pure _
  | succ fuel ih =>
    rw [skipWhile]
    refine .bind get_passesOn fun p => ?_
    split
    · exact .bind next_passesOn fun _ => ih
    · exact .pure _

theorem skipAll_passesOn (cond : Parser → Bool) : PassesOn (skipAll cond) :=
  .bind get_passesOn fun p => skipWhile_passesOn cond p.rounds

theorem paramsFrom_passesOn (acc : Array String) (fuel : Nat) :
    PassesOn (paramsFrom acc fuel) := by
  induction fuel generalizing acc with
  | zero => exact .fail
  | succ fuel ih =>
    rw [paramsFrom.eq_2]
    refine .bind current_passesOn fun c => ?_
    split
    · refine .bind upcoming_passesOn fun t => ?_
      split
      · exact .bind next_passesOn fun _ => .bind next_passesOn fun _ => ih _
      · split
        · exact .bind next_passesOn fun _ => .pure _
        · exact .bind (record_passesOn _ _) fun _ => .fail
    · exact .bind (record_passesOn _ _) fun _ => .fail

theorem params_passesOn : PassesOn params := by
  rw [params.eq_1]
  refine .bind upcoming_passesOn fun t => ?_
  split
  · exact .bind next_passesOn fun _ => .pure _
  · exact .bind next_passesOn fun _ => .bind get_passesOn fun _ => paramsFrom_passesOn _ _

end PassesOn

theorem expression_zero_run (opened min : Nat) (p : Parser) :
    (expression 0 opened min).run p =
      .error (.abandoned opened) { p with errors := p.errors.push ⟨p.cur, .tooDeep p.limit⟩ } := by
  rw [expression.eq_1]
  rfl

/-- Every parse function passes a given-up statement's halt on from where the nesting error was
recorded. -/
theorem passesOn_of_parse :
    (∀ b opened min, PassesOn (expression b opened min)) ∧
    (∀ b opened min left fuel, PassesOn (operators b opened min left fuel)) ∧
    (∀ b opened callee, PassesOn (callArgs b opened callee)) ∧
    (∀ b opened acc fuel, PassesOn (argsFrom b opened acc fuel)) ∧
    (∀ b opened, PassesOn (operand b opened)) ∧
    (∀ b opened, PassesOn (function b opened)) ∧
    (∀ b opened, PassesOn (block b opened)) ∧
    (∀ b opened acc fuel, PassesOn (blockFrom b opened acc fuel)) ∧
    (∀ b opened, PassesOn (statement b opened)) ∧
    (∀ b opened, PassesOn (letStatement b opened)) ∧
    (∀ b opened, PassesOn (returnStatement b opened)) ∧
    (∀ b opened, PassesOn (conditional b opened)) := by
  refine Parse.expression.mutual_induct
    (fun b opened min => PassesOn (expression b opened min))
    (fun b opened min left fuel => PassesOn (operators b opened min left fuel))
    (fun b opened callee => PassesOn (callArgs b opened callee))
    (fun b opened acc fuel => PassesOn (argsFrom b opened acc fuel))
    (fun b opened => PassesOn (operand b opened))
    (fun b opened => PassesOn (function b opened))
    (fun b opened => PassesOn (block b opened))
    (fun b opened acc fuel => PassesOn (blockFrom b opened acc fuel))
    (fun b opened => PassesOn (statement b opened))
    (fun b opened => PassesOn (letStatement b opened))
    (fun b opened => PassesOn (returnStatement b opened))
    (fun b opened => PassesOn (conditional b opened))
    ?_ ?_ ?_ ?_ ?_ ?_ ?_ ?_ ?_ ?_ ?_ ?_ ?_ ?_ ?_ ?_
  · intro opened min p o q halts
    rw [expression_zero_run] at halts
    cases halts
    simp [GaveUp]
  · intro b opened min operand operators
    rw [expression.eq_2]
    exact .bind operand fun left => .bind get_passesOn fun p => operators left p
  · intro b opened min left
    rw [operators.eq_1]
    exact .pure _
  · intro b opened min left fuel callArgs afterCall right afterBinop
    rw [operators.eq_2]
    refine .bind upcoming_passesOn fun t => ?_
    split
    · exact .pure _
    · split
      · exact .bind next_passesOn fun _ => .bind callArgs afterCall
      · split
        · exact .bind next_passesOn fun _ => .bind next_passesOn fun _ =>
            .bind (right t) fun r => afterBinop _ _
        · exact .pure _
  · intro b opened callee args
    rw [callArgs.eq_1]
    refine .bind upcoming_passesOn fun t => ?_
    split
    · exact .bind next_passesOn fun _ => .pure _
    · refine .bind next_passesOn fun _ => .bind get_passesOn fun p =>
        .bind (args p) fun _ => .bind (expectNext_passesOn _) fun ok => ?_
      split
      · exact .pure _
      · exact .fail
  · intro b opened acc
    rw [argsFrom.eq_1]
    exact .pure _
  · intro b opened acc fuel first more
    rw [argsFrom.eq_2]
    refine .bind first fun arg => .bind upcoming_passesOn fun t => ?_
    split
    · exact .bind next_passesOn fun _ => .bind next_passesOn fun _ => more arg
    · exact .pure _
  · intro b opened unary inner conditional function
    rw [operand.eq_1]
    refine .bind current_passesOn fun c => ?_
    split
    · exact .pure _
    · exact .bind next_passesOn fun _ => .bind unary fun _ => .pure _
    · refine .bind next_passesOn fun _ => .bind inner fun e =>
        .bind (expectNext_passesOn _) fun ok => ?_
      split
      · exact .pure _
      · exact .fail
    · exact conditional
    · exact function
    · exact .bind (record_passesOn _ _) fun _ => .fail
  · intro b opened block
    rw [function.eq_1]
    refine .bind (expectNext_passesOn _) fun ok => ?_
    dsimp only
    split
    · refine .bind params_passesOn fun ps => .bind (expectNext_passesOn _) fun ok' => ?_
      split
      · exact .bind block fun body => .pure _
      · exact .fail_bind _
    · exact .fail_bind _
  · intro b opened statements
    rw [block.eq_1]
    refine .bind next_passesOn fun _ => .bind get_passesOn fun p =>
      .bind (statements p) fun ss => .bind current_passesOn fun c => ?_
    dsimp only
    split
    · exact .bind (record_passesOn _ _) fun _ => .pure _
    · exact .pure _
  · intro b opened acc
    rw [blockFrom.eq_1]
    exact .pure _
  · intro b opened acc fuel statement more again
    rw [blockFrom.eq_2]
    refine .bind current_passesOn fun c => ?_
    split
    · exact .pure _
    · refine .bind statement fun o => ?_
      split
      · exact .bind next_passesOn fun _ => more _
      · refine .bind current_passesOn fun c' => ?_
        split
        · exact .pure _
        · exact .bind next_passesOn fun _ => again
  · intro b opened returns binds value p o q halts
    rw [statement_run] at halts
    refine PassesOn.dropFailed ?_ p o q halts
    unfold statementBody
    split
    · exact .pure _
    · exact binds
    · exact returns
    · refine .bind value fun e => .bind upcoming_passesOn fun t => ?_
      split
      · exact .bind next_passesOn fun _ => .pure _
      · exact .pure _
  · intro b opened value
    rw [letStatement.eq_1]
    refine .bind (expectNext_passesOn _) fun named => ?_
    dsimp only
    split
    · refine .bind current_passesOn fun c => .bind (expectNext_passesOn _) fun assigned => ?_
      split
      · refine .bind next_passesOn fun _ => .bind value fun e =>
          .bind upcoming_passesOn fun t => ?_
        split
        · exact .bind next_passesOn fun _ => .pure _
        · exact .pure _
      · exact .bind (skipAll_passesOn _) fun _ => .pure _
    · exact .bind (skipAll_passesOn _) fun _ => .pure _
  · intro b opened value
    rw [returnStatement.eq_1]
    refine .bind upcoming_passesOn fun t => ?_
    split
    · dsimp only
      split
      · exact .bind next_passesOn fun _ => .pure _
      · exact .pure _
    · refine .bind next_passesOn fun _ => .bind value fun e =>
        .bind (skipAll_passesOn _) fun _ => .bind upcoming_passesOn fun t => ?_
      dsimp only
      split
      · exact .bind next_passesOn fun _ => .pure _
      · exact .pure _
  · intro b opened test block
    rw [conditional.eq_1]
    refine .bind (expectNext_passesOn _) fun ok => ?_
    dsimp only
    split
    · refine .bind next_passesOn fun _ => .bind test fun cond =>
        .bind (expectNext_passesOn _) fun ok => ?_
      split
      · refine .bind (expectNext_passesOn _) fun ok => ?_
        split
        · refine .bind block fun t => .bind upcoming_passesOn fun t' => ?_
          split
          · refine .bind next_passesOn fun _ => .bind (expectNext_passesOn _) fun ok => ?_
            split
            · exact .bind block fun e => .pure _
            · exact .fail_bind _
          · exact .pure _
        · exact .fail_bind _
      · exact .fail_bind _
    · exact .fail_bind _

theorem statement_passesOn (b opened : Nat) : PassesOn (statement b opened) :=
  passesOn_of_parse.2.2.2.2.2.2.2.2.1 b opened

/-- How many tokens the skip of a given-up statement moves over, given the blocks open at the
failure and the kinds of the tokens from the current one through the end of input. It stops
before the end of input, on a `;` once no block is open, and on a `}` that closes the last open
block unless a `;` follows it. -/
def skipLength : Int → List Token.Kind → Nat
  | _, [] => 0
  | opened, k :: rest =>
    if k = .eof ∨ rest.headD .eof = .eof then 0
    else
      match k with
      | .lbrace => skipLength (opened + 1) rest + 1
      | .rbrace =>
        if opened - 1 ≤ 0 ∧ rest.headD .eof ≠ .semicolon then 0
        else skipLength (opened - 1) rest + 1
      | .semicolon => if opened ≤ 0 then 0 else skipLength opened rest + 1
      | _ => skipLength opened rest + 1

theorem skipLength_plain (opened : Int) {k k' : Token.Kind} (ks : List Token.Kind)
    (plain : k ≠ .lbrace ∧ k ≠ .rbrace ∧ k ≠ .semicolon ∧ k ≠ .eof) (going : k' ≠ .eof) :
    skipLength opened (k :: k' :: ks) = skipLength opened (k' :: ks) + 1 := by
  obtain ⟨notOpen, notClose, notEnd, real⟩ := plain
  rw [skipLength.eq_def]
  dsimp only
  rw [if_neg (by simp [real, going])]
  split
  · exact absurd rfl notOpen
  · exact absurd rfl notClose
  · exact absurd rfl notEnd
  · rfl

theorem skipLength_lbrace (opened : Int) {k' : Token.Kind} (ks : List Token.Kind)
    (going : k' ≠ .eof) :
    skipLength opened (.lbrace :: k' :: ks) = skipLength (opened + 1) (k' :: ks) + 1 := by
  simp [skipLength, going]

theorem skipLength_rbrace (opened : Int) {k' : Token.Kind} (ks : List Token.Kind)
    (going : k' ≠ .eof) :
    skipLength opened (.rbrace :: k' :: ks) =
      if opened - 1 ≤ 0 ∧ k' ≠ .semicolon then 0 else skipLength (opened - 1) (k' :: ks) + 1 := by
  simp [skipLength, going]

theorem skipLength_semicolon (opened : Int) {k' : Token.Kind} (ks : List Token.Kind)
    (going : k' ≠ .eof) :
    skipLength opened (.semicolon :: k' :: ks) =
      if opened ≤ 0 then 0 else skipLength opened (k' :: ks) + 1 := by
  simp [skipLength, going]

theorem skipLength_of_stop {opened : Int} {p : Parser} (valid : p.Valid)
    (stop : p.cur.kind = .eof ∨ p.peek.kind = .eof) : skipLength opened p.view = 0 := by
  rw [view_eq_cons]
  unfold skipLength
  rw [← valid.peek_kind, if_pos stop]

theorem skipGivenUp_run (opened : Int) {fuel : Nat} {p : Parser} (valid : p.Valid)
    (enough : p.left ≤ fuel) :
    (skipGivenUp opened fuel).run p = .ok () (Parser.advance^[skipLength opened p.view] p) := by
  induction fuel generalizing opened p with
  | zero =>
    have ended : p.cur.kind = .eof :=
      cur_eof_iff.2 (List.eq_nil_of_length_eq_zero (Nat.le_zero.1 enough))
    rw [skipLength_of_stop valid (.inl ended)]
    rfl
  | succ fuel ih =>
    rw [skipGivenUp.eq_2, run_bind_ok (get_run p)]
    by_cases stop : p.cur.kind = .eof ∨ p.peek.kind = .eof
    · rw [skipLength_of_stop valid stop]
      have stops : (p.cur.kind == .eof || p.peek.kind == .eof) = true := by simpa using stop
      simp only [stops, if_true]
      rfl
    · obtain ⟨real, going⟩ := not_or.1 stop
      have bound : p.advance.left ≤ fuel := by
        have moved := valid.left_advance real
        omega
      -- the tokens after the current one are those the parser holds once it moves on
      have view : p.view = p.cur.kind :: p.peek.kind :: p.advance.rest := by
        rw [view_eq_cons, ← valid.view_advance real, view_eq_cons, cur_advance]
      have step : ∀ o, (skipGivenUp o fuel).run p.advance =
          .ok () (Parser.advance^[skipLength o (p.peek.kind :: p.advance.rest) + 1] p) := by
        intro o
        rw [ih o valid.advance bound, view_eq_cons, cur_advance, Function.iterate_succ_apply]
      have goes : (p.cur.kind == .eof || p.peek.kind == .eof) = false := by simpa using stop
      simp only [goes, Bool.false_eq_true, if_false]
      rw [view]
      split
      · next lbrace =>
        rw [run_bind_ok (next_run p), step, lbrace, skipLength_lbrace _ _ going]
      · next rbrace =>
        rw [rbrace, skipLength_rbrace _ _ going]
        by_cases closes : opened - 1 ≤ 0 ∧ p.peek.kind ≠ .semicolon
        · rw [if_pos (by simpa using closes), if_pos closes]
          rfl
        · rw [if_neg (by simpa using closes), if_neg closes, run_bind_ok (next_run p), step]
      · next semicolon =>
        rw [semicolon, skipLength_semicolon _ _ going]
        by_cases closed : opened ≤ 0
        · rw [if_pos closed, if_pos closed]
          rfl
        · rw [if_neg closed, if_neg closed, run_bind_ok (next_run p), step]
      · next notOpen notClose notEnd =>
        rw [run_bind_ok (next_run p), step,
          skipLength_plain _ _ ⟨notOpen, notClose, notEnd, real⟩ going]

end Parse

open Monkey.Parse Monkey.Parser

/-- A statement given up at the top level leaves the nesting error last, at the token where the
limit ran out, and the top level records nothing more for it: it skips `skipLength` tokens, which
need not reach the statement's end, and goes on from there. -/
theorem given_up_statement_resumes (acc : Array Stmt) (fuel : Nat) {p q : Parser} {o : Nat}
    (valid : p.Valid) (real : p.cur.kind ≠ .eof)
    (abandons : (statement p.limit 0).run p = .error (.abandoned o) q) :
    q.errors.back? = some ⟨q.cur, .tooDeep p.limit⟩ ∧
      (program acc (fuel + 1)).run p =
        (afterStatement acc fuel).run (Parser.advance^[skipLength o q.view] q) := by
  have reach : Reach p q := by
    simpa [abandons, landing] using statement_moves p.limit 0 p valid
  have gaveUp : q.GaveUp := statement_passesOn p.limit 0 p o q abandons
  refine ⟨by rw [← reach.limit]; exact gaveUp, ?_⟩
  rw [program_abandoned acc fuel real abandons,
    run_bind_ok (skipGivenUp_run o reach.valid (left_le_rounds q))]

/-- In `(fn() {});` at limit 1 the limit runs out on `fn`; the skip stops four tokens on, on the
closing brace, and the parse goes on from the `)` after it. -/
theorem function_literal_resumes_early :
    let p := Parser.ofScan (Token.scan [40, 102, 110, 40, 41, 32, 123, 125, 41, 59]) 1
    let q := p.givenUp 1
    q.errors.back? = some ⟨q.cur, .tooDeep 1⟩ ∧
      (program #[] 8).run p = (afterStatement #[] 7).run (Parser.advance^[4] q) ∧
      (Parser.advance^[4] q).cur.kind = .rbrace ∧ (Parser.advance^[4] q).peek.kind = .rparen := by
  intro p q
  have scanned : Token.scan [40, 102, 110, 40, 41, 32, 123, 125, 41, 59] =
      ([⟨.lparen, [40], ⟨1, 0⟩⟩, ⟨.kwFn, [102, 110], ⟨1, 1⟩⟩, ⟨.lparen, [40], ⟨1, 3⟩⟩,
        ⟨.rparen, [41], ⟨1, 4⟩⟩, ⟨.lbrace, [123], ⟨1, 6⟩⟩, ⟨.rbrace, [125], ⟨1, 7⟩⟩,
        ⟨.rparen, [41], ⟨1, 8⟩⟩, ⟨.semicolon, [59], ⟨1, 9⟩⟩], .ok (Token.eofAt ⟨1, 10⟩)) := by
    cbv
  have valid : p.Valid := by
    simp only [p, scanned]
    exact ofScan_valid 1 (by decide) rfl
  have opens : List.replicate 1 Token.Kind.lparen <+: p.ahead.map Token.kind := by
    simp only [p, scanned]
    decide
  have limit : p.limit = 1 := limit_ofScan _ 1
  have abandons : (statement p.limit 0).run p = .error (.abandoned 0) q := by
    rw [limit]
    exact statement_abandoned (by simp only [p, scanned]; decide)
      (expression_nested 1 (drained_ofScan _ 1) opens)
  have skipped : skipLength (0 : Nat) q.view = 4 := by
    simp only [q, p, scanned]
    decide
  obtain ⟨last, resumes⟩ := given_up_statement_resumes #[] 7 valid
    (by simp only [p, scanned]; decide) abandons
  rw [skipped] at resumes
  rw [limit] at last
  refine ⟨last, resumes, ?_, ?_⟩ <;> simp only [q, p, scanned] <;> decide

end Monkey
