import Monkey.Proofs.Leaves
import Monkey.Proofs.Programs

/-!
# Nesting past the limit cannot be completed

The parser checks the nesting limit on entering an expression, before it looks at any token. A
source that opens as many parentheses as the limit allows therefore fails at the token after them,
whatever that token is (`parseWith_open_parens_append`). With nothing after them, that token is
the end of input, so the failure is incomplete (`parseWith_open_parens`). A reader that asks for
more input on incomplete failures then asks in vain: no continuation parses
(`nesting_limit_never_completes`).

`expression_nested` follows the parser down the parentheses. It tracks the tokens the parser
holds (`Parser.ahead`), which stay in order as it moves on, since a lexical error comes only after
the scanned tokens (`Parser.Drained`). After the nesting error the top level skips the statement
and goes on, and the error stays first: every parse step keeps the errors recorded so far
(`Parser.Recorded`, an invariant for `keeps_of_parse`).
-/

set_option autoImplicit false
set_option relaxedAutoImplicit false

namespace Monkey

theorem tail_prefix_tail {α : Type} {l₁ l₂ : List α} (pre : l₁ <+: l₂) :
    l₁.tail <+: l₂.tail := by
  obtain ⟨r, rfl⟩ := pre
  cases l₁ with
  | nil => exact List.nil_prefix
  | cons a l => exact List.prefix_append _ _

namespace Token

theorem scanFrom_nil (pos : Pos) : scanFrom pos [] = ([], .ok (eofAt pos)) := by
  rw [scanFrom]
  rfl

theorem scanFrom_lparen (line col : Nat) (rest : List UInt8) :
    scanFrom ⟨line, col⟩ (40 :: rest) =
      (⟨.lparen, [40], ⟨line, col⟩⟩ :: (scanFrom ⟨line, col + 1⟩ rest).1,
        (scanFrom ⟨line, col + 1⟩ rest).2) := by
  have read : read ⟨line, col⟩ 40 rest = .ok (.lparen, [40], rest) := by
    simp [read, Kind.ofByte?]
  have notBlank : isBlank 40 = false := by decide
  have start :
      Pos.advanceAll ⟨line, col⟩ ((40 :: rest).takeWhile isBlank) = ⟨line, col⟩ := by
    simp [notBlank, Pos.advanceAll]
  rw [scanFrom]
  split
  · rename_i leading
    simp [notBlank] at leading
  · rename_i b rest' leading
    simp only [List.dropWhile_cons, notBlank, Bool.false_eq_true, if_false, List.cons.injEq]
      at leading
    obtain ⟨rfl, rfl⟩ := leading
    dsimp only
    split
    · rename_i e failed
      rw [start, read] at failed
      cases failed
    · rename_i k lexeme after succeeded
      rw [start, read] at succeeded
      cases succeeded
      simp [notBlank, Pos.advanceAll, Pos.advance]

theorem scanFrom_lparens (n line col : Nat) (rest : List UInt8) :
    ∃ ts, scanFrom ⟨line, col⟩ (List.replicate n 40 ++ rest) =
        (ts ++ (scanFrom ⟨line, col + n⟩ rest).1, (scanFrom ⟨line, col + n⟩ rest).2) ∧
      ts.map kind = List.replicate n .lparen := by
  induction n generalizing col with
  | zero => exact ⟨[], rfl, rfl⟩
  | succ n ih =>
    obtain ⟨ts, scanned, kinds⟩ := ih (col + 1)
    refine ⟨⟨.lparen, [40], ⟨line, col⟩⟩ :: ts, ?_, ?_⟩
    · rw [List.replicate_succ, List.cons_append, scanFrom_lparen, scanned, Nat.add_right_comm,
        Nat.add_assoc]
      rfl
    · simp [kinds, List.replicate_succ]

theorem scan_lparens (n : Nat) (rest : List UInt8) :
    ∃ ts, scan (List.replicate n 40 ++ rest) =
        (ts ++ (scanFrom ⟨1, n⟩ rest).1, (scanFrom ⟨1, n⟩ rest).2) ∧
      ts.map kind = List.replicate n .lparen := by
  simpa [scan, Pos.start] using scanFrom_lparens n 1 0 rest

end Token

namespace Parser

/-- The tokens a parser holds: the current one, the next one, the scanned ones after them, and the
end of input that the scan ends with, unless it ends in a lexical error. -/
def ahead (p : Parser) : List Token := p.cur :: p.peek :: (p.pending ++ p.ending.toOption.toList)

/-- A lexical error is met only where the scan ends in one, once the scanned tokens are used up. -/
def Drained (p : Parser) : Prop :=
  p.lexError.isSome → p.pending = [] ∧ p.ending.toOption = none

theorem Drained.advance {p : Parser} (drained : p.Drained) : p.advance.Drained := by
  unfold Drained Parser.advance at *
  cases lexError : p.lexError with
  | some e => simpa [lexError] using drained
  | none =>
    cases pending : p.pending with
    | cons t rest => simp
    | nil =>
      cases ending : p.ending with
      | ok eofTok => simp
      | error e => simp [Except.toOption]

theorem Drained.tail_ahead {p : Parser} (drained : p.Drained) :
    p.ahead.tail <+: p.advance.ahead := by
  unfold ahead Parser.advance
  cases lexError : p.lexError with
  | some e =>
    obtain ⟨empty, ended⟩ := drained (by simp [lexError])
    simp [empty, ended]
  | none =>
    cases pending : p.pending with
    | cons t rest => simp
    | nil =>
      cases ending : p.ending with
      | ok eofTok => simp [Except.toOption]
      | error e => simp [Except.toOption]

theorem drained_ofScan (scan : List Token × Except LexError Token) (limit : Nat) :
    (ofScan scan limit).Drained := by
  unfold ofScan
  exact Drained.advance (Drained.advance fun errored => nomatch errored)

theorem Drained.prefix_advance {p : Parser} (drained : p.Drained) {l : List Token}
    (pre : l <+: p.ahead) : l.tail <+: p.advance.ahead :=
  (tail_prefix_tail pre).trans drained.tail_ahead

theorem Drained.prefix_iterate (k : Nat) {p : Parser} (drained : p.Drained) {l : List Token}
    (pre : l <+: p.ahead) : l.drop k <+: (Parser.advance^[k] p).ahead := by
  induction k generalizing p l with
  | zero => exact pre
  | succ k ih =>
    rw [Function.iterate_succ_apply, ← List.drop_tail]
    exact ih drained.advance (drained.prefix_advance pre)

theorem ahead_ofScan (scan : List Token × Except LexError Token) (limit : Nat) :
    scan.1 ++ scan.2.toOption.toList <+: (ofScan scan limit).ahead := by
  have blank : Drained
      { cur := Token.eofAt ⟨0, 0⟩, peek := Token.eofAt ⟨0, 0⟩, pending := scan.1,
        ending := scan.2, lexError := none, errors := #[], limit := limit } := by
    simp [Drained]
  exact blank.prefix_iterate 2 (List.prefix_refl _)

theorem Drained.lparens_advance {p : Parser} (drained : p.Drained) {n : Nat}
    (opens : List.replicate (n + 1) Token.Kind.lparen <+: p.ahead.map Token.kind) :
    p.cur.kind = .lparen ∧ List.replicate n .lparen <+: p.advance.ahead.map Token.kind := by
  refine ⟨?_, ?_⟩
  · rw [List.replicate_succ, ahead, List.map_cons, List.cons_prefix_cons] at opens
    exact opens.1.symm
  · have rest := tail_prefix_tail opens
    rw [← List.map_tail] at rest
    exact rest.trans (drained.tail_ahead.map _)

/-- Where parsing stands when an expression gives up `b` tokens on: moved on over them, with the
error that expressions nest too deep recorded at the token reached. -/
def givenUp (p : Parser) (b : Nat) : Parser :=
  { Parser.advance^[b] p with
    errors := p.errors.push ⟨(Parser.advance^[b] p).cur, .tooDeep p.limit⟩ }

theorem givenUp_advance (p : Parser) (b : Nat) : p.advance.givenUp b = p.givenUp (b + 1) := by
  simp only [givenUp, errors_advance, limit_advance, Function.iterate_succ_apply]

/-- The parser's tokens scan back, and the errors it has recorded start with `es`. -/
def Recorded (es : List SyntaxError) (p : Parser) : Prop := p.Scannable ∧ es <+: p.errors.toList

theorem finish_of_recorded {p : Parser} (recorded : p.errors.toList ≠ []) (stmts : List Stmt) :
    ∃ f, p.finish stmts = .error f ∧ f.syntaxErrors = p.errors.toList := by
  unfold finish
  cases p.lexError with
  | some e => exact ⟨_, rfl, rfl⟩
  | none =>
    have notEmpty : p.errors.isEmpty = false := by simpa using recorded
    exact ⟨_, by rw [if_neg (by simp [notEmpty])], rfl⟩

theorem Recorded.finish {e : SyntaxError} {p : Parser} (recorded : Recorded [e] p)
    (stmts : List Stmt) : ∃ f, p.finish stmts = .error f ∧ f.syntaxErrors.head? = some e := by
  obtain ⟨more, starts⟩ := recorded.2
  obtain ⟨f, failed, errors⟩ := finish_of_recorded (by rw [← starts]; simp) stmts
  exact ⟨f, failed, by rw [errors, ← starts]; rfl⟩

end Parser

namespace Parse

open Monkey.Parser

theorem run_bind_error {α β : Type} {x : ParseM α} {k : α → ParseM β} {p q : Parser}
    {h : Halt} (run : x.run p = .error h q) : (x >>= k).run p = .error h q := by
  rw [EStateM.run_bind, run]

theorem operand_group_halts {b opened : Nat} {p q : Parser} {h : Halt}
    (group : p.cur.kind = .lparen) (inner : (expression b opened 0).run p.advance = .error h q) :
    (operand b opened).run p = .error h q := by
  rw [operand.eq_1, run_bind_ok (current_run p), group]
  dsimp only [Token.Kind.lead]
  rw [run_bind_ok (next_run p), run_bind_error inner]

theorem expression_nested (b : Nat) {opened min : Nat} {p : Parser} (drained : p.Drained)
    (opens : List.replicate b .lparen <+: p.ahead.map Token.kind) :
    (expression b opened min).run p = .error (.abandoned opened) (p.givenUp b) := by
  induction b generalizing p min with
  | zero =>
    rw [expression.eq_1]
    rfl
  | succ b ih =>
    obtain ⟨group, inner⟩ := drained.lparens_advance opens
    have halts := operand_group_halts group (ih drained.advance inner)
    rw [expression.eq_2, run_bind_error halts, givenUp_advance]

theorem statement_abandoned {b opened o : Nat} {p q : Parser} (group : p.cur.kind = .lparen)
    (abandons : (expression b opened 0).run p = .error (.abandoned o) q) :
    (statement b opened).run p = .error (.abandoned o) q := by
  rw [statement_run, group, EStateM.run_tryCatch]
  dsimp only [statementBody]
  rw [run_bind_error abandons]
  rfl

/-- What the top level does once a statement is dealt with: it stops at a lexical error, and
otherwise moves on to the next statement. -/
def afterStatement (acc : Array Stmt) (fuel : Nat) : ParseM (List Stmt) := do
  if (← get).lexError.isSome then return acc.toList
  next
  program acc fuel

theorem program_abandoned (acc : Array Stmt) (fuel : Nat) {p q : Parser} {o : Nat}
    (real : p.cur.kind ≠ .eof)
    (abandons : (statement p.limit 0).run p = .error (.abandoned o) q) :
    (program acc (fuel + 1)).run p =
      (skipGivenUp o q.rounds >>= fun _ => afterStatement acc fuel).run q := by
  rw [program.eq_2, run_bind_ok (get_run p)]
  have restored : EStateM.Backtrackable.restore q (EStateM.Backtrackable.save p) = q := rfl
  rw [if_neg (by simpa using real), EStateM.run_bind, EStateM.run_tryCatch,
    run_bind_error abandons]
  simp only [restored, EStateM.run_bind, get_run]
  cases (skipGivenUp o q.rounds).run q <;> rfl

theorem skipGivenUp_at_end (opened : Int) (fuel : Nat) {p : Parser} (ended : p.cur.kind = .eof) :
    (skipGivenUp opened fuel).run p = .ok () p := by
  cases fuel with
  | zero => rfl
  | succ fuel =>
    rw [skipGivenUp.eq_2, run_bind_ok (get_run p)]
    simp [ended]

theorem program_at_end (acc : Array Stmt) (fuel : Nat) {p : Parser} (ended : p.cur.kind = .eof) :
    (program acc fuel).run p = .ok acc.toList p := by
  cases fuel with
  | zero => rfl
  | succ fuel =>
    rw [program.eq_2, run_bind_ok (get_run p)]
    simp [ended]

theorem program_nested (acc : Array Stmt) (fuel : Nat) {p : Parser} (drained : p.Drained)
    (positive : 0 < p.limit) (opens : List.replicate p.limit .lparen <+: p.ahead.map Token.kind) :
    (program acc (fuel + 1)).run p =
      (skipGivenUp 0 (p.givenUp p.limit).rounds >>= fun _ => afterStatement acc fuel).run
        (p.givenUp p.limit) := by
  obtain ⟨b, first⟩ : ∃ b, p.limit = b + 1 := ⟨p.limit - 1, by omega⟩
  have group : p.cur.kind = .lparen := (drained.lparens_advance (first ▸ opens)).1
  exact program_abandoned acc fuel (by simp [group])
    (statement_abandoned group (expression_nested p.limit drained opens))

instance (es : List SyntaxError) : Tracked (Recorded es) where
  scannable held := held.1
  advance held := ⟨held.1.advance, by rw [errors_advance]; exact held.2⟩
  record e _ held := ⟨held.1, held.2.trans (by simp)⟩

variable {I : Parser → Prop} [Tracked I] in
theorem afterStatement_keeps (acc : Array Stmt) (scannable : acc.toList.all Stmt.scannable)
    (fuel : Nat) : Keeps I (afterStatement acc fuel) fun ss => ss.all Stmt.scannable := by
  refine Keeps.bind Keeps.get fun q _ => ?_
  split
  · exact Keeps.pure scannable
  · exact Keeps.bind next_keeps fun _ _ => program_keeps acc scannable fuel

end Parse

open Monkey.Parser Monkey.Parse

theorem parseWith_open_parens {limit : Nat} (positive : 0 < limit) :
    Program.parseWith limit (List.replicate limit 40) =
      .error (.syntactic [⟨Token.eofAt ⟨1, limit⟩, .tooDeep limit⟩]) := by
  obtain ⟨ts, scanned, kinds⟩ := Token.scan_lparens limit []
  rw [List.append_nil, Token.scanFrom_nil, List.append_nil] at scanned
  dsimp only at scanned
  have real : ∀ t ∈ ts, t.kind ≠ .eof := fun t mem => by
    have lparen := List.mem_map_of_mem (f := Token.kind) mem
    rw [kinds] at lparen
    rw [List.eq_of_mem_replicate lparen]
    decide
  unfold Program.parseWith
  rw [scanned]
  set p := Parser.ofScan (ts, .ok (Token.eofAt ⟨1, limit⟩)) limit
  have valid : p.Valid := ofScan_valid limit real rfl
  have clean : p.errors = #[] := errors_ofScan _ limit
  have bound : p.limit = limit := limit_ofScan _ limit
  have held : ts ++ [Token.eofAt ⟨1, limit⟩] <+: p.ahead :=
    ahead_ofScan (ts, .ok (Token.eofAt ⟨1, limit⟩)) limit
  have opens : List.replicate p.limit .lparen <+: p.ahead.map Token.kind := by
    rw [bound, ← kinds]
    exact (List.prefix_append _ _).trans (by simpa using held.map Token.kind)
  -- where the limit runs out, the parser is on the end of input
  have reached : (Parser.advance^[limit] p).cur = Token.eofAt ⟨1, limit⟩ := by
    have rest := (drained_ofScan _ limit).prefix_iterate limit held
    rw [List.drop_left' (by simpa using congrArg List.length kinds)] at rest
    exact (List.cons_prefix_cons.1 rest).1.symm
  have moved : (Parser.advance^[limit] p).Valid :=
    Function.Iterate.rec Parser.Valid valid (fun _ valid => valid.advance) limit
  have stopped : (p.givenUp limit).Valid :=
    ⟨moved.noLexError, moved.ending, moved.pending, moved.curEnd, moved.peekEnd⟩
  have ended : (p.givenUp limit).cur.kind = .eof := by
    simp only [givenUp, reached]
    rfl
  have run : (program #[] p.rounds).run p = .ok [] (p.givenUp limit).advance := by
    rw [show p.rounds = p.pending.length + 1 + 1 from rfl,
      program_nested #[] _ (drained_ofScan _ limit) (by rwa [bound]) opens, bound,
      run_bind_ok (skipGivenUp_at_end _ _ ended), afterStatement, run_bind_ok (get_run _),
      if_neg (by simp [stopped.noLexError]), run_bind_ok (next_run _)]
    exact program_at_end #[] _ (by rw [cur_advance]; exact stopped.curEnd ended)
  dsimp only
  rw [run]
  dsimp only
  unfold Parser.finish
  rw [stopped.advance.noLexError]
  simp [givenUp, reached, clean, bound]

theorem parseWith_open_parens_append {limit : Nat} (positive : 0 < limit) (rest : List UInt8) :
    ∃ f tok, Program.parseWith limit (List.replicate limit 40 ++ rest) = .error f ∧
      f.syntaxErrors.head? = some ⟨tok, .tooDeep limit⟩ := by
  obtain ⟨ts, scanned, kinds⟩ := Token.scan_lparens limit rest
  have scannable := scannable_ofScan (List.replicate limit 40 ++ rest) limit
  unfold Program.parseWith
  set p := Parser.ofScan (Token.scan (List.replicate limit 40 ++ rest)) limit
  have clean : p.errors = #[] := errors_ofScan _ limit
  have bound : p.limit = limit := limit_ofScan _ limit
  have drained : p.Drained := drained_ofScan _ limit
  have opens : List.replicate p.limit .lparen <+: p.ahead.map Token.kind := by
    have held : (Token.scan (List.replicate limit 40 ++ rest)).1 ++ _ <+: p.ahead :=
      ahead_ofScan _ limit
    rw [scanned] at held
    have kindsHeld := held.map Token.kind
    simp only [List.map_append, List.append_assoc, kinds] at kindsHeld
    rw [bound]
    exact (List.prefix_append _ _).trans kindsHeld
  -- from the state where the limit runs out, the rest of the parse keeps the error first
  let e : SyntaxError := ⟨(Parser.advance^[limit] p).cur, .tooDeep limit⟩
  have recorded : Recorded [e] (p.givenUp limit) := by
    refine ⟨Function.Iterate.rec Parser.Scannable scannable (fun _ held => held.advance) limit,
      ?_⟩
    simp [givenUp, e, clean, bound]
  have kept := Keeps.bind (skipGivenUp_keeps 0 (p.givenUp limit).rounds)
    (fun _ _ => afterStatement_keeps #[] rfl (p.pending.length + 1)) (p.givenUp limit) recorded
  dsimp only
  rw [show p.rounds = p.pending.length + 1 + 1 from rfl,
    program_nested #[] _ drained (by rwa [bound]) opens, bound]
  revert kept
  generalize (skipGivenUp 0 (p.givenUp limit).rounds >>= fun _ =>
    afterStatement #[] (p.pending.length + 1)).run (p.givenUp limit) = r
  rintro ⟨landed, -⟩
  cases r with
  | ok stmts q =>
    obtain ⟨f, failed, first⟩ := Recorded.finish landed stmts
    exact ⟨f, e.token, failed, first⟩
  | error h q =>
    obtain ⟨f, failed, first⟩ := Recorded.finish landed []
    exact ⟨f, e.token, failed, first⟩

/-- A source that opens as many parentheses as the nesting limit fails with the one error that
expressions nest too deep, at the end of input, so the failure is incomplete; yet no continuation
makes it parse, since the error is met before the parser reads past the parentheses. -/
theorem nesting_limit_never_completes {limit : Nat} (positive : 0 < limit) :
    (∃ f, Program.parseWith limit (List.replicate limit 40) = .error f ∧ f.incomplete ∧
        f.syntaxErrors = [⟨Token.eofAt ⟨1, limit⟩, .tooDeep limit⟩]) ∧
      ∀ rest, ∃ f tok, Program.parseWith limit (List.replicate limit 40 ++ rest) = .error f ∧
        f.syntaxErrors.head? = some ⟨tok, .tooDeep limit⟩ :=
  ⟨⟨_, parseWith_open_parens positive, rfl, rfl⟩, parseWith_open_parens_append positive⟩

/-- The reader's input of 2048 opening parentheses, at the default limit. -/
theorem default_limit_never_completes :
    0 < Parser.defaultLimit ∧
      ((∃ f, Program.parse (List.replicate 2048 40) = .error f ∧ f.incomplete ∧
          f.syntaxErrors = [⟨Token.eofAt ⟨1, 2048⟩, .tooDeep 2048⟩]) ∧
        ∀ rest, ∃ f tok, Program.parse (List.replicate 2048 40 ++ rest) = .error f ∧
          f.syntaxErrors.head? = some ⟨tok, .tooDeep 2048⟩) :=
  ⟨by decide, nesting_limit_never_completes (by decide)⟩

end Monkey
