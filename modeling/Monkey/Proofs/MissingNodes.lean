import Monkey.Proofs.LexicalErrors
import Monkey.Interpreter

/-!
# No node goes missing without an error

A parse function gives back a node, or gives up: it halts, or, for a statement, comes back empty.
A node is built only from the nodes its parts gave back, so a missing part never makes it into a
tree; what could go wrong is that a part goes missing quietly and the parser reads on as if
nothing were there. It never does: every parse function that gives up has recorded a syntax error
since it started, and a statement comes back empty without one only on a lone `;`
(`Parse.giving_up_records_errors`, by induction along the parser's recursion, with
`Parse.Accounts` closed under `bind`).

Errors are never taken back, so a source the parser accepts was read in full: at the top level,
every statement is a lone `;` or was parsed to a node of the program, in order, up to the end of
input (`Parse.Whole`). And a node of the kinds this library builds never fails to evaluate as
unsupported, in any session state, mode or nesting limit: only a node of another kind does
(`Eval.evaluation_supported`). Together: `accepted_program_has_no_missing_node`.
-/

set_option autoImplicit false
set_option relaxedAutoImplicit false

namespace Monkey

namespace Parse

open Monkey.Parser

/-- A run gives back no node: it halts, or its result is one `bad` picks out. -/
def Missing {α : Type} (bad : α → Prop) : EStateM.Result Halt Parser α → Prop
  | .ok a _ => bad a
  | .error _ _ => True

/-- Every run of the step from a valid state that gives back no node has recorded an error since
it started. -/
def Accounts {α : Type} (bad : α → Prop) (x : ParseM α) : Prop :=
  ∀ p, p.Valid → Missing bad (x.run p) → p.errors.size < (landing (x.run p)).errors.size

/-- A step that never gives up. -/
abbrev Clean {α : Type} (x : ParseM α) : Prop := Accounts (fun _ => False) x

section Accounts

variable {α β : Type} {bad : β → Prop}

theorem Accounts.of_ok {x : ParseM β} (returns : ∀ p, ∃ b q, x.run p = .ok b q ∧ ¬ bad b) :
    Accounts bad x := by
  intro p _ missing
  obtain ⟨b, q, run, good⟩ := returns p
  rw [run] at missing
  exact absurd missing good

theorem Accounts.pure (b : β) (good : ¬ bad b) : Accounts bad (Pure.pure b : ParseM β) :=
  Accounts.of_ok fun p => ⟨b, p, rfl, good⟩

theorem Accounts.bind {bad₁ : α → Prop} {x : ParseM α} {k : α → ParseM β}
    (first : Accounts bad₁ x) (moves : Moves x) (recorded : ∀ a, bad₁ a → Moves (k a))
    (rest : ∀ a, ¬ bad₁ a → Accounts bad (k a)) : Accounts bad (x >>= k) := by
  intro p valid missing
  rw [EStateM.run_bind] at missing ⊢
  have reach := moves p valid
  have gaveUp := first p valid
  cases run : x.run p with
  | error h q =>
    rw [run] at reach gaveUp
    exact gaveUp trivial
  | ok a q =>
    rw [run] at reach gaveUp missing
    by_cases wrong : bad₁ a
    · -- the first step already recorded an error, and the rest only adds to them
      exact Nat.lt_of_lt_of_le (gaveUp wrong) (Reach.size_le ((recorded a wrong) q reach.valid))
    · exact Nat.lt_of_le_of_lt (Reach.size_le reach) (rest a wrong q reach.valid missing)

theorem Accounts.bind_clean {x : ParseM α} {k : α → ParseM β} (first : Clean x)
    (moves : Moves x) (rest : ∀ a, Accounts bad (k a)) : Accounts bad (x >>= k) :=
  Accounts.bind first moves (fun _ => False.elim) fun a _ => rest a

theorem Accounts.record_bind {k : Unit → ParseM β} (tok : Token) (fault : SyntaxFault)
    (after : Moves (k ())) : Accounts bad (record tok fault >>= k) :=
  fun _ valid _ => (record_fails tok fault valid after).2

/-- A step that reads the state: what it does next may depend on the state it started from. -/
theorem Accounts.get_bind {k : Parser → ParseM β}
    (rest : ∀ p, p.Valid → Missing bad ((k p).run p) →
      p.errors.size < (landing ((k p).run p)).errors.size) :
    Accounts bad ((MonadState.get : ParseM Parser) >>= k) :=
  fun p valid => by
    rw [run_bind_ok (get_run p)]
    exact rest p valid

theorem next_clean : Clean next := Accounts.of_ok fun p => ⟨(), _, next_run p, id⟩

theorem current_clean : Clean current := Accounts.of_ok fun p => ⟨_, _, current_run p, id⟩

theorem upcoming_clean : Clean upcoming := Accounts.of_ok fun p => ⟨_, _, upcoming_run p, id⟩

/-- An expectation that is not met records an error. -/
theorem expectNext_accounts (want : Wanted) : Accounts (· = false) (expectNext want) := by
  intro p _ missing
  cases accepts : want.accepts p.peek.kind
  · have run : (expectNext want).run p =
        .ok false { p with errors := p.errors.push ⟨p.peek, .expected want⟩ } := by
      simp [expectNext, accepts, expected, record, EStateM.run_bind]
    rw [run]
    simp [landing]
  · have run : (expectNext want).run p = .ok true p.advance := by
      simp [expectNext, accepts, EStateM.run_bind]
    rw [run] at missing
    cases missing

/-- `unless ← expectNext want do fail`, then the rest. -/
theorem Accounts.expect_bind {k : Bool → ParseM β} (want : Wanted)
    (accepted : Accounts bad (k true)) (rejected : Moves (k false)) :
    Accounts bad (expectNext want >>= k) := by
  refine Accounts.bind (expectNext_accounts want) (expectNext_moves want) (fun ok wrong => ?_)
    fun ok right => ?_
  · rw [wrong]
    exact rejected
  · rw [Bool.not_eq_false] at right
    rw [right]
    exact accepted

theorem skipWhile_clean (cond : Parser → Bool) (fuel : Nat) : Clean (skipWhile cond fuel) := by
  induction fuel with
  | zero => exact Accounts.pure () id
  | succ fuel ih =>
    rw [skipWhile.eq_2]
    refine Accounts.get_bind fun q => ?_
    split
    · exact Accounts.bind_clean next_clean next_moves (fun _ => ih) q
    · exact Accounts.pure () id q

theorem skipAll_clean (cond : Parser → Bool) : Clean (skipAll cond) :=
  Accounts.get_bind fun q => skipWhile_clean cond q.rounds q

theorem paramsFrom_clean (fuel : Nat) (acc : Array String) (p : Parser) (valid : p.Valid)
    (enough : p.left ≤ fuel) (pos : 0 < fuel) :
    Missing (fun _ => False) ((paramsFrom acc fuel).run p) →
      p.errors.size < (landing ((paramsFrom acc fuel).run p)).errors.size := by
  -- on the fuel, which the names and commas left never outrun
  induction fuel generalizing acc p with
  | zero => omega
  | succ fuel ih =>
    rw [paramsFrom.eq_2, run_bind_ok (current_run p)]
    split
    · next name named =>
      have real : p.cur.kind ≠ .eof := by rw [named]; exact Token.Kind.noConfusion
      rw [run_bind_ok (upcoming_run p)]
      split
      · -- after a comma the list goes on from the token after it
        next comma =>
        have moved : p.advance.cur.kind ≠ .eof := by
          rw [cur_advance, beq_iff_eq.1 comma]
          decide
        have shorter : p.advance.advance.left + 2 = p.left := by
          have := valid.left_advance real
          have := valid.advance.left_advance moved
          omega
        rw [run_bind_ok (next_run p), run_bind_ok (next_run _)]
        intro missing
        have further := ih (acc.push name) _ valid.advance.advance (by omega) (by omega) missing
        simpa using further
      · split
        · intro missing
          rw [run_bind_ok (next_run p)] at missing
          cases missing
        · exact (Accounts.record_bind _ _ (Moves.throw _)) p valid
    · exact (Accounts.record_bind _ _ (Moves.throw _)) p valid

theorem params_clean : Clean params := by
  rw [params.eq_1]
  refine Accounts.bind_clean upcoming_clean upcoming_moves fun t => ?_
  split
  · exact Accounts.bind_clean next_clean next_moves fun _ => Accounts.pure _ id
  · refine Accounts.bind_clean next_clean next_moves fun _ => Accounts.get_bind fun p valid => ?_
    exact paramsFrom_clean _ #[] p valid (left_le_rounds p) (Nat.succ_pos _)

theorem Missing.weaken {r : EStateM.Result Halt Parser β} (missing : Missing (fun _ => False) r) :
    Missing bad r := by
  cases r with
  | ok b q => exact missing.elim
  | error h q => trivial

/-- A statement whose malformed part is dropped: a part given up as malformed makes the statement
come back empty, with the error its part recorded. -/
theorem Accounts.dropFailed {x : ParseM (Option Stmt)} (body : Accounts (· = none) x) :
    Accounts (· = none) (tryCatch x dropFailed) := by
  intro p valid missing
  have gaveUp := body p valid
  rw [EStateM.run_tryCatch] at missing ⊢
  cases run : x.run p with
  | ok o q =>
    rw [run] at gaveUp missing
    exact gaveUp missing
  | error h q =>
    rw [run] at gaveUp
    cases h <;> exact gaveUp trivial

/-- A statement's node given back after its optional `;`: nothing is given up. -/
theorem semicolon_accounts (s : Stmt) (k : Token.Kind) :
    Accounts (· = none) ((do
      if k == .semicolon then next
      pure (some s)) : ParseM (Option Stmt)) := by
  split
  · exact Accounts.bind_clean next_clean next_moves fun _ =>
      Accounts.pure _ (Option.some_ne_none _)
  · exact Accounts.pure _ (Option.some_ne_none _)

end Accounts

/-- A statement comes back empty with no error recorded only when it stands on a lone `;`. -/
def EmptyOnlyAtSemicolon (x : ParseM (Option Stmt)) : Prop :=
  ∀ p, p.Valid → p.cur.kind ≠ .semicolon → Missing (· = none) (x.run p) →
    p.errors.size < (landing (x.run p)).errors.size

/-- Every parse function gives up only with an error recorded: it halts only after recording one,
and a statement comes back empty without one only on a lone `;`. -/
theorem giving_up_records_errors :
    (∀ b opened min, Clean (expression b opened min)) ∧
    (∀ b opened min left fuel, Clean (operators b opened min left fuel)) ∧
    (∀ b opened callee, Clean (callArgs b opened callee)) ∧
    (∀ b opened acc fuel, Clean (argsFrom b opened acc fuel)) ∧
    (∀ b opened, Clean (operand b opened)) ∧
    (∀ b opened, Clean (function b opened)) ∧
    (∀ b opened, Clean (block b opened)) ∧
    (∀ b opened acc fuel, Clean (blockFrom b opened acc fuel)) ∧
    (∀ b opened, Clean (statement b opened) ∧ EmptyOnlyAtSemicolon (statement b opened)) ∧
    (∀ b opened, Accounts (· = none) (letStatement b opened)) ∧
    (∀ b opened, Accounts (· = none) (returnStatement b opened)) ∧
    (∀ b opened, Clean (conditional b opened)) := by
  obtain ⟨expressionMoves, operatorsMoves, callArgsMoves, argsMoves, operandMoves, -, blockMoves,
    -, statementMoves, -, -, -⟩ := moves_of_parse
  refine Parse.expression.mutual_induct
    (fun b opened min => Clean (expression b opened min))
    (fun b opened min left fuel => Clean (operators b opened min left fuel))
    (fun b opened callee => Clean (callArgs b opened callee))
    (fun b opened acc fuel => Clean (argsFrom b opened acc fuel))
    (fun b opened => Clean (operand b opened))
    (fun b opened => Clean (function b opened))
    (fun b opened => Clean (block b opened))
    (fun b opened acc fuel => Clean (blockFrom b opened acc fuel))
    (fun b opened => Clean (statement b opened) ∧ EmptyOnlyAtSemicolon (statement b opened))
    (fun b opened => Accounts (· = none) (letStatement b opened))
    (fun b opened => Accounts (· = none) (returnStatement b opened))
    (fun b opened => Clean (conditional b opened))
    ?_ ?_ ?_ ?_ ?_ ?_ ?_ ?_ ?_ ?_ ?_ ?_ ?_ ?_ ?_ ?_
  · -- out of budget: the nesting error is recorded before the statement is given up
    intro opened min
    rw [expression.eq_1]
    exact Accounts.get_bind fun p valid => Accounts.record_bind _ _ (Moves.throw _) p valid
  · intro b opened min operand operators
    rw [expression.eq_2]
    exact Accounts.bind_clean operand (operandMoves b opened) fun _ =>
      Accounts.get_bind fun p valid => operators _ p p valid
  · intro b opened min left
    rw [operators.eq_1]
    exact Accounts.pure _ id
  · intro b opened min left fuel callArgs afterCall right afterBinop
    rw [operators.eq_2]
    refine Accounts.bind_clean upcoming_clean upcoming_moves fun t => ?_
    split
    · exact Accounts.pure _ id
    · split
      · exact Accounts.bind_clean next_clean next_moves fun _ =>
          Accounts.bind_clean callArgs (callArgsMoves b opened left) afterCall
      · split
        · exact Accounts.bind_clean next_clean next_moves fun _ =>
            Accounts.bind_clean next_clean next_moves fun _ =>
              Accounts.bind_clean (right t) (expressionMoves _ _ _) fun _ => afterBinop _ _
        · exact Accounts.pure _ id
  · intro b opened callee args
    rw [callArgs.eq_1]
    refine Accounts.bind_clean upcoming_clean upcoming_moves fun t => ?_
    split
    · exact Accounts.bind_clean next_clean next_moves fun _ => Accounts.pure _ id
    · refine Accounts.bind_clean next_clean next_moves fun _ => Accounts.get_bind fun p valid => ?_
      refine Accounts.bind_clean (args p) (argsMoves _ _ _ _) (fun _ => ?_) p valid
      exact Accounts.expect_bind _ (Accounts.pure _ id) (Moves.throw _)
  · intro b opened acc
    rw [argsFrom.eq_1]
    exact Accounts.pure _ id
  · intro b opened acc fuel first more
    rw [argsFrom.eq_2]
    refine Accounts.bind_clean first (expressionMoves _ _ _) fun arg =>
      Accounts.bind_clean upcoming_clean upcoming_moves fun t => ?_
    split
    · exact Accounts.bind_clean next_clean next_moves fun _ =>
        Accounts.bind_clean next_clean next_moves fun _ => more arg
    · exact Accounts.pure _ id
  · intro b opened unary inner conditional function
    rw [operand.eq_1]
    refine Accounts.bind_clean current_clean current_moves fun c => ?_
    split
    · exact Accounts.pure _ id
    · exact Accounts.bind_clean next_clean next_moves fun _ =>
        Accounts.bind_clean unary (expressionMoves _ _ _) fun _ => Accounts.pure _ id
    · refine Accounts.bind_clean next_clean next_moves fun _ =>
        Accounts.bind_clean inner (expressionMoves _ _ _) fun _ => ?_
      exact Accounts.expect_bind _ (Accounts.pure _ id) (Moves.throw _)
    · exact conditional
    · exact function
    · -- no expression starts here: the error is recorded, then the construct is given up
      exact Accounts.record_bind _ _ (Moves.throw _)
  · intro b opened block
    rw [function.eq_1]
    refine Accounts.expect_bind _ ?_ (Moves.throw_bind _ _)
    refine Accounts.bind_clean params_clean params_moves fun ps => ?_
    exact Accounts.expect_bind _ (Accounts.bind_clean block (blockMoves b opened) fun _ =>
      Accounts.pure _ id) (Moves.throw_bind _ _)
  · intro b opened statements
    rw [block.eq_1]
    refine Accounts.bind_clean next_clean next_moves fun _ => Accounts.get_bind fun p valid => ?_
    refine Accounts.bind_clean (statements p) (blockFrom_moves _ _ _ _) (fun _ =>
      Accounts.bind_clean current_clean current_moves fun c => ?_) p valid
    dsimp only
    split
    · exact Accounts.record_bind _ _ (Moves.pure _)
    · exact Accounts.pure _ id
  · intro b opened acc
    rw [blockFrom.eq_1]
    exact Accounts.pure _ id
  · intro b opened acc fuel statement more same
    rw [blockFrom.eq_2]
    refine Accounts.bind_clean current_clean current_moves fun c => ?_
    split
    · exact Accounts.pure _ id
    · refine Accounts.bind_clean statement.1 (statementMoves b opened) fun o => ?_
      split
      · exact Accounts.bind_clean next_clean next_moves fun _ => more _
      · refine Accounts.bind_clean current_clean current_moves fun c' => ?_
        split
        · exact Accounts.pure _ id
        · exact Accounts.bind_clean next_clean next_moves fun _ => same
  · -- a malformed part leaves the statement empty, with its error recorded
    intro b opened returns binds value
    have body : ∀ k, k ≠ .semicolon → Accounts (· = none) (statementBody b opened k) := by
      intro k notEmpty
      unfold statementBody
      split
      · exact absurd rfl notEmpty
      · exact binds
      · exact returns
      · exact Accounts.bind_clean value (expressionMoves _ _ _) fun _ =>
          Accounts.bind_clean upcoming_clean upcoming_moves fun t => semicolon_accounts _ t.kind
    have dropped : EmptyOnlyAtSemicolon (statement b opened) := by
      intro p valid notEmpty
      rw [statement_run]
      exact (body p.cur.kind notEmpty).dropFailed p valid
    refine ⟨fun p valid => ?_, dropped⟩
    by_cases empty : p.cur.kind = .semicolon
    · -- a lone `;` gives back no statement, and gives nothing up
      have run : (statement b opened).run p = .ok none p := by
        rw [statement_run, empty]
        rfl
      rw [run]
      exact False.elim
    · exact fun missing => dropped p valid empty missing.weaken
  · intro b opened value
    rw [letStatement.eq_1]
    refine Accounts.expect_bind _ ?_ (Moves.bind (skipAll_moves _) fun _ => Moves.pure _)
    refine Accounts.bind_clean current_clean current_moves fun c => ?_
    refine Accounts.expect_bind _ ?_ (Moves.bind (skipAll_moves _) fun _ => Moves.pure _)
    exact Accounts.bind_clean next_clean next_moves fun _ =>
      Accounts.bind_clean value (expressionMoves _ _ _) fun _ =>
        Accounts.bind_clean upcoming_clean upcoming_moves fun t => semicolon_accounts _ t.kind
  · intro b opened value
    rw [returnStatement.eq_1]
    refine Accounts.bind_clean upcoming_clean upcoming_moves fun t => ?_
    split
    · exact semicolon_accounts _ t.kind
    · exact Accounts.bind_clean next_clean next_moves fun _ =>
        Accounts.bind_clean value (expressionMoves _ _ _) fun _ =>
          Accounts.bind_clean (skipAll_clean _) (skipAll_moves _) fun _ =>
            Accounts.bind_clean upcoming_clean upcoming_moves fun t => semicolon_accounts _ t.kind
  · intro b opened test block
    rw [conditional.eq_1]
    refine Accounts.expect_bind _ ?_ (Moves.throw_bind _ _)
    refine Accounts.bind_clean next_clean next_moves fun _ =>
      Accounts.bind_clean test (expressionMoves _ _ _) fun _ => ?_
    refine Accounts.expect_bind _ ?_ (Moves.throw_bind _ _)
    refine Accounts.expect_bind _ ?_ (Moves.throw_bind _ _)
    refine Accounts.bind_clean block (blockMoves b opened) fun _ =>
      Accounts.bind_clean upcoming_clean upcoming_moves fun t => ?_
    split
    · refine Accounts.bind_clean next_clean next_moves fun _ => ?_
      exact Accounts.expect_bind _ (Accounts.bind_clean block (blockMoves b opened) fun _ =>
        Accounts.pure _ id) (Moves.throw_bind _ _)
    · exact Accounts.pure _ id

/-- The top level from `p` on, with `fuel` rounds left, builds `stmts` reading every statement in
full: each round meets the end of input, a lone `;`, or a statement it parses to a node. -/
inductive Whole : Nat → Parser → List Stmt → Prop
  | done {fuel : Nat} {p : Parser} : p.cur.kind = .eof → Whole fuel p []
  | empty {fuel : Nat} {p q : Parser} {stmts : List Stmt} : p.cur.kind = .semicolon →
      (statement p.limit 0).run p = .ok none q → Whole fuel q.advance stmts →
      Whole (fuel + 1) p stmts
  | node {fuel : Nat} {p q : Parser} {s : Stmt} {stmts : List Stmt} :
      (statement p.limit 0).run p = .ok (some s) q → Whole fuel q.advance stmts →
      Whole (fuel + 1) p (s :: stmts)

theorem left_advance_le_of_reach {p q : Parser} (reach : Reach p q) :
    q.advance.left ≤ p.left - 1 := by
  have fewer := reach.left_le
  by_cases ended : q.cur.kind = .eof
  · -- at the end of input the parser stays where it is, with nothing left
    have none : q.advance.left = 0 := by
      simp only [left, rest, reach.valid.view_advance_of_eof ended]
      exact congrArg List.length (rest_of_eof ended)
    omega
  · have moved := reach.valid.left_advance ended
    omega

theorem afterStatement_moves (acc : Array Stmt) (fuel : Nat) : Moves (afterStatement acc fuel) := by
  rw [afterStatement]
  refine Moves.bind Moves.get fun q => ?_
  split
  · exact Moves.pure _
  · exact Moves.bind next_moves fun _ => program_moves _ _

/-- The rest of the top level keeps every error recorded before it. -/
theorem afterStatement_size {q r : Parser} {acc' : Array Stmt} {fuel : Nat} {stmts : List Stmt}
    (valid : q.Valid) (run : (afterStatement acc' fuel).run q = .ok stmts r) :
    q.errors.size ≤ r.errors.size := by
  have reach := afterStatement_moves acc' fuel q valid
  rw [run] at reach
  exact reach.size_le

/-- A run of the top level that records no error reads every statement in full. -/
theorem program_whole (fuel : Nat) (acc : Array Stmt) (p : Parser) (valid : p.Valid)
    (enough : p.left ≤ fuel) {stmts : List Stmt} {r : Parser}
    (run : (program acc fuel).run p = .ok stmts r) (clean : r.errors.size ≤ p.errors.size) :
    ∃ more, stmts = acc.toList ++ more ∧ Whole fuel p more := by
  obtain ⟨-, -, -, -, -, -, -, -, statementAccounts, -, -, -⟩ := giving_up_records_errors
  induction fuel generalizing acc p stmts with
  | zero =>
    rw [program.eq_1] at run
    cases run
    have ended := List.eq_nil_of_length_eq_zero (Nat.le_zero.1 enough)
    exact ⟨[], by simp, .done (cur_eof_iff.2 ended)⟩
  | succ fuel ih =>
    by_cases ended : p.cur.kind = .eof
    · rw [program.eq_2, run_bind_ok (get_run p), if_pos (by simpa using ended)] at run
      cases run
      exact ⟨[], by simp, .done ended⟩
    rw [program_round acc fuel ended] at run
    have gaveUp := (statementAccounts p.limit 0).1 p valid
    have stmtReach := statement_moves p.limit 0 p valid
    -- whatever the statement did, the top level goes on from the state it ended in
    cases stmtRun : (statement p.limit 0).run p with
    | ok o q =>
      rw [stmtRun] at stmtReach
      change Reach p q at stmtReach
      have top : (topStatement p.limit acc).run p = .ok (o.elim acc acc.push) q := by
        cases o <;> simp [topStatement, EStateM.run_tryCatch, EStateM.run_bind, stmtRun]
      rw [run_bind_ok top] at run
      have rest := afterStatement_size stmtReach.valid run
      have lexOk := stmtReach.valid.noLexError
      rw [afterStatement, run_bind_ok (get_run q), if_neg (by simp [lexOk]),
        run_bind_ok (next_run q)] at run
      have fewer := left_advance_le_of_reach stmtReach
      have kept := stmtReach.size_le
      have further := ih _ _ stmtReach.valid.advance (by omega) run
        (by rw [errors_advance]; omega)
      cases o with
      | none =>
        -- an empty statement with nothing recorded is a lone `;`
        by_cases semi : p.cur.kind = .semicolon
        · obtain ⟨more, same, whole⟩ := further
          exact ⟨more, same, .empty semi stmtRun whole⟩
        · have recorded := (statementAccounts p.limit 0).2 p valid semi
          rw [stmtRun] at recorded
          have := recorded rfl
          simp only [landing] at this
          omega
      | some s =>
        obtain ⟨more, same, whole⟩ := further
        exact ⟨s :: more, by simpa using same, .node stmtRun whole⟩
    | error h q =>
      -- a statement given up has recorded an error, which the rest of the run keeps
      rw [stmtRun] at gaveUp stmtReach
      change Reach p q at stmtReach
      have recorded : p.errors.size < q.errors.size := gaveUp trivial
      -- the halt is caught, and what the top level does next only adds errors
      have restored : EStateM.Backtrackable.restore q (EStateM.Backtrackable.save p) = q := rfl
      have caught : ∃ acc' q', (topStatement p.limit acc).run p = .ok acc' q' ∧ Reach q q' := by
        cases h with
        | failed =>
          exact ⟨acc, q, by
            simp [topStatement, EStateM.run_tryCatch, EStateM.run_bind, stmtRun, restored],
            .refl stmtReach.valid⟩
        | abandoned o =>
          obtain ⟨u, q', skipped⟩ := skipGivenUp_returns o q.rounds q
          have reach' := skipGivenUp_moves o q.rounds q stmtReach.valid
          rw [skipped] at reach'
          refine ⟨acc, q', ?_, reach'⟩
          simp [topStatement, EStateM.run_tryCatch, EStateM.run_bind, stmtRun, restored, skipped]
      obtain ⟨acc', q', top, reach'⟩ := caught
      rw [run_bind_ok top] at run
      have rest := afterStatement_size reach'.valid run
      have kept := reach'.size_le
      omega

theorem program_returns (acc : Array Stmt) (fuel : Nat) : Returns (program acc fuel) := by
  induction fuel generalizing acc with
  | zero => exact Returns.pure _
  | succ fuel ih =>
    intro p
    by_cases ended : p.cur.kind = .eof
    · refine ⟨acc.toList, p, ?_⟩
      rw [program.eq_2, run_bind_ok (get_run p), if_pos (by simpa using ended)]
      rfl
    · rw [program_round acc fuel ended]
      refine Returns.bind (topStatement_returns p.limit acc) (fun acc' => ?_) p
      rw [afterStatement]
      refine Returns.bind (fun q => ⟨q, q, get_run q⟩) fun q => ?_
      split
      · exact Returns.pure _
      · exact Returns.bind (fun q => ⟨(), _, next_run q⟩) fun _ => ih _

/-- A source the parser accepts, at any nesting limit, was read in full at the top level. -/
theorem accepted_whole {limit : Nat} {src : List UInt8} {prog : Program}
    (accepted : Program.parseWith limit src = .ok prog) :
    Whole (Parser.ofScan (Token.scan src) limit).rounds (Parser.ofScan (Token.scan src) limit)
      prog.stmts := by
  -- an accepted source scans without a lexical error
  obtain ⟨last, ended⟩ : ∃ last, (Token.scan src).2 = .ok last := by
    cases scan : (Token.scan src).2 with
    | ok last => exact ⟨last, rfl⟩
    | error e =>
      obtain ⟨recorded, lexical⟩ := (parseWith_lexical_iff limit src e).2 scan
      rw [accepted] at lexical
      cases lexical
  have scanned : Token.scan src = ((Token.scan src).1, .ok last) := by
    rw [← ended]
  have valid := ofScan_valid limit (Token.scan_real scanned) (Token.scanFrom_reads scanned).2
  rw [← scanned] at valid
  unfold Program.parseWith at accepted
  dsimp only at accepted
  generalize Parser.ofScan (Token.scan src) limit = p at valid accepted ⊢
  cases run : (program #[] p.rounds).run p with
  | ok stmts q =>
    rw [run] at accepted
    have reach := program_moves #[] p.rounds p valid
    rw [run] at reach
    change Reach p q at reach
    -- the program is the statements read, with no error recorded on the way
    obtain ⟨clean, rfl⟩ := (finish_ok_iff reach.valid).1 accepted
    obtain ⟨more, same, whole⟩ :=
      program_whole p.rounds #[] p valid (left_le_rounds p) run (by rw [clean]; exact Nat.zero_le _)
    simp only [List.nil_append] at same
    rw [same]
    exact whole
  | error h q =>
    obtain ⟨stmts, q', returns⟩ := program_returns #[] p.rounds p
    rw [returns] at run
    cases run

end Parse

namespace Eval

/-- Every run of the step that fails, fails with an error of a kind other than unsupported. -/
def Supported {α : Type} (x : EvalM α) : Prop :=
  ∀ m e m', x.run m = .error e m' → e.kind ≠ .unsupported

theorem intBinary_error {op : BinOp} {a b : Int32} {e : EvalError}
    (computed : intBinary op a b = .error e) : e = .divisionByZero a := by
  cases op <;> simp [intBinary] at computed
  split at computed
  · cases computed
    rfl
  · cases computed

namespace Supported

variable {α β : Type}

theorem pure (a : α) : Supported (Pure.pure a : EvalM α) := fun _ _ _ run => nomatch run

theorem throw {e : EvalError} (known : e.kind ≠ .unsupported) :
    Supported (MonadExcept.throw e : EvalM α) := by
  intro m e' m' run
  cases run
  exact known

theorem get : Supported (MonadState.get : EvalM Machine) := fun _ _ _ run => nomatch run

theorem of_modify (f : Machine → Machine) : Supported (modify f : EvalM PUnit) :=
  fun _ _ _ run => nomatch run

theorem bind {x : EvalM α} {k : α → EvalM β} (first : Supported x)
    (rest : ∀ a, Supported (k a)) : Supported (x >>= k) := by
  intro m e m' failed
  rw [EStateM.run_bind] at failed
  cases run : x.run m with
  | ok a m₁ =>
    rw [run] at failed
    exact rest a m₁ e m' failed
  | error e₁ m₁ =>
    rw [run] at failed
    cases failed
    exact first m e m' run

theorem enterFrame (outer : FrameId) (params : List String) (vals : List Value) :
    Supported (Eval.enterFrame outer params vals) := fun _ _ _ run => nomatch run

variable (cfg : Config)

theorem note (t : Trace) : Supported (Eval.note cfg t) := by
  unfold Eval.note
  split
  · exact of_modify _
  · exact pure _

theorem degrade {e : EvalError} (known : e.kind ≠ .unsupported) :
    Supported (Eval.degrade cfg e) := by
  unfold Eval.degrade
  split
  · exact throw known
  · exact (note cfg _).bind fun _ => pure _

theorem unary (op : UnOp) (v : Value) : Supported (Eval.unary cfg op v) := by
  unfold Eval.unary
  split
  · exact pure _
  · exact pure _
  · exact degrade cfg (by simp [EvalError.kind])

theorem binary (op : BinOp) (l r : Value) : Supported (Eval.binary cfg op l r) := by
  unfold Eval.binary
  split
  · split
    · exact pure _
    · -- the one failure of integer arithmetic is a zero divisor
      rename_i a b e computed
      rw [intBinary_error computed]
      exact throw (by simp [EvalError.kind])
  · split
    · exact pure _
    · exact pure _
    · exact degrade cfg (by simp [EvalError.kind])
  · exact degrade cfg (by simp [EvalError.kind])

end Supported

variable (cfg : Config)

/-- Evaluation fails only with the errors of the language: never as unsupported, which is kept
for nodes of other kinds. -/
theorem evaluation_supported :
    (∀ b env e, Supported (expr cfg b env e)) ∧
    (∀ b env es, Supported (exprs cfg b env es)) ∧
    (∀ b env ss, Supported (block cfg b env ss)) ∧
    (∀ b env ss last, Supported (stmtsFrom cfg b env ss last)) ∧
    (∀ b env s, Supported (stmt cfg b env s)) := by
  have stackLimit : (EvalError.stackLimit cfg.maxDepth).kind ≠ .unsupported := by
    simp [EvalError.kind]
  apply expr.mutual_induct
  · intro budget env name
    simp only [expr]
    refine Supported.get.bind fun m => ?_
    split
    · exact Supported.pure _
    · exact (Supported.degrade cfg (by simp [EvalError.kind])).bind fun _ => Supported.pure _
  · intro budget env n
    rw [expr]
    exact Supported.pure _
  · intro budget env b
    rw [expr]
    exact Supported.pure _
  · intro env op arg
    rw [expr]
    exact Supported.throw stackLimit
  · intro env op arg b operand
    simp only [expr]
    refine operand.bind fun c => ?_
    cases c with
    | returning v => exact Supported.pure _
    | normal v => exact (Supported.unary cfg op v).bind fun _ => Supported.pure _
  · intro env op lhs rhs
    rw [expr]
    exact Supported.throw stackLimit
  · intro env op lhs rhs b left right
    simp only [expr]
    refine left.bind fun c => ?_
    cases c with
    | returning v => exact Supported.pure _
    | normal l =>
      refine right.bind fun c => ?_
      cases c with
      | returning v => exact Supported.pure _
      | normal r => exact (Supported.binary cfg op l r).bind fun _ => Supported.pure _
  · intro budget env test thenBlock elseBlock condition thenPart elsePart
    cases elseBlock with
    | some stmts =>
      rw [expr]
      refine condition.bind fun c => ?_
      cases c with
      | returning v => exact Supported.pure _
      | normal c =>
        refine (Supported.note cfg _).bind fun _ => ?_
        split
        · exact thenPart
        · exact elsePart
    | none =>
      rw [expr]
      refine condition.bind fun c => ?_
      cases c with
      | returning v => exact Supported.pure _
      | normal c =>
        refine (Supported.note cfg _).bind fun _ => ?_
        split
        · exact thenPart
        · exact Supported.pure _
  · intro budget env params body
    rw [expr]
    exact Supported.pure _
  · intro env callee args
    rw [expr]
    exact Supported.throw stackLimit
  · intro env callee args b function arguments running
    simp only [expr]
    refine function.bind fun c => ?_
    cases c with
    | returning v => exact Supported.pure _
    | normal v =>
      cases v
      case closure params body outer =>
        refine arguments.bind fun c => ?_
        cases c with
        | returning v => exact Supported.pure _
        | normal vals =>
          exact (Supported.enterFrame outer params vals).bind fun frame =>
            (running body frame).bind fun _ => Supported.pure _
      all_goals
        exact (Supported.degrade cfg (by simp [EvalError.kind])).bind fun _ => Supported.pure _
  · intro budget env
    rw [exprs]
    exact Supported.pure _
  · intro budget env e rest first others
    rw [exprs]
    refine first.bind fun c => ?_
    cases c with
    | returning v => exact Supported.pure _
    | normal v =>
      refine others.bind fun c => ?_
      cases c <;> exact Supported.pure _
  · intro env stmts
    rw [block]
    exact Supported.throw stackLimit
  · intro env stmts b run
    rw [block]
    exact run
  · intro budget env last
    rw [stmtsFrom]
    exact Supported.pure _
  · intro budget env s rest last first others
    rw [stmtsFrom]
    refine first.bind fun c => ?_
    cases c with
    | returning v => exact Supported.pure _
    | normal v => exact others v
  · intro budget env name e value
    rw [stmt]
    refine value.bind fun c => ?_
    cases c with
    | returning v => exact Supported.pure _
    | normal v => exact (Supported.of_modify _).bind fun _ => Supported.pure _
  · intro budget env
    rw [stmt]
    exact Supported.pure _
  · intro budget env e value
    rw [stmt]
    refine value.bind fun c => ?_
    cases c <;> exact Supported.pure _
  · intro budget env e value
    rw [stmt]
    exact value

theorem program_supported (env : FrameId) (ss : List Stmt) (last : Value) :
    Supported (program cfg env ss last) := by
  induction ss generalizing last with
  | nil => exact Supported.pure _
  | cons s rest ih =>
    simp only [program]
    refine (Supported.note cfg _).bind fun _ => ?_
    refine ((evaluation_supported cfg).2.2.2.2 _ _ _).bind fun c => ?_
    cases c with
    | returning v => exact Supported.pure _
    | normal v => exact (Supported.note cfg _).bind fun _ => ih v

end Eval

namespace Interpreter

theorem exec_supported {α : Type} {x : EvalM α} (supported : Eval.Supported x) (ip : Interpreter)
    {e : EvalError} (failed : (ip.exec x).1 = .error e) : e.kind ≠ .unsupported := by
  unfold exec at failed
  split at failed
  · cases failed
  · next m run =>
    cases failed
    exact supported _ _ _ run

/-- A program, block, statement or expression, evaluated in any frame of any interpreter, never
fails as unsupported. -/
theorem evalIn_supported (ip : Interpreter) (node : Node) (env : FrameId)
    (known : ∀ what, node ≠ .other what) {e : EvalError}
    (failed : (ip.evalIn node env).1 = .error e) :
    e.kind ≠ .unsupported := by
  obtain ⟨expressions, -, blocks, -, statements⟩ := Eval.evaluation_supported ip.config
  cases node with
  | program p => exact exec_supported (Eval.program_supported ip.config env p.stmts .null) ip failed
  | block ss => exact exec_supported ((blocks _ env ss).bind fun _ => .pure _) ip failed
  | stmt s => exact exec_supported ((statements _ env s).bind fun _ => .pure _) ip failed
  | expr e => exact exec_supported ((expressions _ env e).bind fun _ => .pure _) ip failed
  | other what => exact absurd rfl (known what)

end Interpreter

/-- A source the parser accepts, at any nesting limit, has no missing node. At the top level every
statement of the source is a lone `;` or was parsed, with every part it holds, to the next
statement of the program, up to the end of input: nothing was given up or dropped on the way. And
no node of the kinds a program is made of fails to evaluate as unsupported: neither the program,
nor any block, statement or expression, in any frame of any interpreter, strict or lenient, at any
nesting limit. -/
theorem accepted_program_has_no_missing_node {limit : Nat} {src : List UInt8} {prog : Program}
    (accepted : Program.parseWith limit src = .ok prog) :
    Parse.Whole (Parser.ofScan (Token.scan src) limit).rounds (Parser.ofScan (Token.scan src) limit)
      prog.stmts ∧
    (∀ (ip : Interpreter) (e : EvalError), (ip.eval prog).1 = .error e → e.kind ≠ .unsupported) ∧
    ∀ (ip : Interpreter) (node : Node) (env : FrameId), (∀ what, node ≠ .other what) →
      ∀ e, (ip.evalIn node env).1 = .error e → e.kind ≠ .unsupported :=
  ⟨Parse.accepted_whole accepted,
    fun ip _ failed =>
      ip.exec_supported (Eval.program_supported ip.config _ prog.stmts .null) failed,
    fun ip node env known _ failed => ip.evalIn_supported node env known failed⟩

/-- `;;` is accepted as the empty program: the two lone `;` are the statements dropped, and they
record nothing. -/
theorem lone_semicolons_read_in_full :
    Program.parse [59, 59] = .ok ⟨[]⟩ ∧
    Parse.Whole (Parser.ofScan (Token.scan [59, 59]) Parser.defaultLimit).rounds
      (Parser.ofScan (Token.scan [59, 59]) Parser.defaultLimit) [] ∧
    (∀ (ip : Interpreter) (e : EvalError), (ip.eval ⟨[]⟩).1 = .error e → e.kind ≠ .unsupported) ∧
    ∀ (ip : Interpreter) (node : Node) (env : FrameId), (∀ what, node ≠ .other what) →
      ∀ e, (ip.evalIn node env).1 = .error e → e.kind ≠ .unsupported := by
  have accepted : Program.parseWith Parser.defaultLimit [59, 59] = .ok ⟨[]⟩ := by
    cbv
  exact ⟨accepted, accepted_program_has_no_missing_node accepted⟩

end Monkey
