import Monkey.Proofs.Nesting
import Monkey.Proofs.BadNumbers

/-!
# A parse fails with a lexical error exactly where scanning does

The parser reads the scanned tokens one after another; once they are used up it meets how the
scan ended, and a lexical error met there is kept for good. The top level checks for it after
every statement and stops, and a finished parse reports it in place of its syntax errors. So a
parse fails with a lexical error exactly when the scan of its source does, and with that error
(`parseWith_lexical_iff`). By `Token.scanFrom_error_iff` that is the error of the first bad run
of digits of the source, placed at its first digit (`lexical_error_iff_bad_run`).

Two invariants carry the argument. `Parser.Meets E` says that a lexical error the parser has met
is the one its scan ends with (`E`); every parse step keeps it, so a parse reports no lexical
error the scan did not end with. `Parser.Failing e n` holds of a parser over a scan that failed
with `e`: until the error is met every token in view is a real one, so the top level sees no end
of input, and the error is met within `n` moves (`Parser.unread`). Each round of the top level
moves on at least once, so with a round for every scanned token the parse meets the error
(`program_meets_lexError`).
-/

set_option autoImplicit false
set_option relaxedAutoImplicit false

namespace Monkey

theorem Pos.start_advanceAll (pre : List UInt8) :
    Pos.start.advanceAll pre = ⟨pre.count 10 + 1, (pre.reverse.takeWhile (· != 10)).length⟩ := by
  induction pre using List.reverseRecOn with
  | nil => rfl
  | append_singleton pre b ih =>
    rw [Token.Pos.advanceAll_append, ih]
    by_cases feed : b = 10
    · subst feed
      simp [Pos.advanceAll, Pos.advance]
    · simp [Pos.advanceAll, Pos.advance, feed]

namespace Token

theorem scanFrom_real (pos : Pos) (bs : List UInt8) :
    ∀ t ∈ (scanFrom pos bs).1, t.kind ≠ .eof := by
  fun_induction scanFrom pos bs with
  | case1 => simp
  | case2 => simp
  | case3 pos bs b rest leading start k lexeme after read_ok _ ts' last' tail ih =>
    have notBlank : isBlank b = false := by
      simpa using head?_dropWhile_stops isBlank bs b (by rw [leading]; rfl)
    rw [tail] at ih
    intro t mem
    rcases List.mem_cons.1 mem with rfl | mem
    · exact (read_longest notBlank read_ok).2.real
    · exact ih t mem

end Token

namespace Parser

@[simp] theorem ending_advance (p : Parser) : p.advance.ending = p.ending := by
  unfold Parser.advance
  split
  · rfl
  · split
    · rfl
    · split <;> rfl

theorem advance_cases (p : Parser) :
    (p.lexError.isSome ∧ p.advance = { p with cur := p.peek, peek := Token.eofAt p.peek.pos }) ∨
    (p.lexError = none ∧ ∃ t rest, p.pending = t :: rest ∧
      p.advance = { p with cur := p.peek, peek := t, pending := rest }) ∨
    (p.lexError = none ∧ p.pending = [] ∧ ∃ t, p.ending = .ok t ∧
      p.advance = { p with cur := p.peek, peek := t }) ∨
    (p.lexError = none ∧ p.pending = [] ∧ ∃ e, p.ending = .error e ∧
      p.advance =
        { p with cur := p.peek, peek := Token.eofAt p.peek.pos, lexError := some e }) := by
  unfold Parser.advance
  cases met : p.lexError with
  | some e => exact .inl ⟨rfl, rfl⟩
  | none =>
    cases pending : p.pending with
    | cons t rest => exact .inr (.inl ⟨rfl, t, rest, rfl, rfl⟩)
    | nil =>
      cases ending : p.ending with
      | ok t => exact .inr (.inr (.inl ⟨rfl, rfl, t, rfl, rfl⟩))
      | error e => exact .inr (.inr (.inr ⟨rfl, rfl, e, rfl, rfl⟩))

/-- A lexical error the parser has met is the one its scan ends with, `E`; and its tokens scan
back. -/
structure Meets (E : Except LexError Token) (p : Parser) : Prop where
  scannable : p.Scannable
  ending : p.ending = E
  met : ∀ e, p.lexError = some e → E = .error e

theorem Meets.advance {E : Except LexError Token} {p : Parser} (meets : p.Meets E) :
    p.advance.Meets E := by
  refine ⟨meets.scannable.advance, by rw [ending_advance, meets.ending], fun e met => ?_⟩
  rcases advance_cases p with ⟨_, step⟩ | ⟨none, _, _, _, step⟩ | ⟨none, _, _, _, step⟩ |
      ⟨_, _, e', failed, step⟩ <;> rw [step] at met
  · exact meets.met e met
  · simp [none] at met
  · simp [none] at met
  · -- the error met now is the one the scan ends with
    cases met
    rw [← meets.ending, failed]

instance (E : Except LexError Token) : Parse.Tracked (Meets E) where
  scannable meets := meets.scannable
  advance meets := meets.advance
  record _ _ meets := ⟨meets.scannable, meets.ending, meets.met⟩

/-- Until the lexical error is met, no token in view or still to read is an end of input. -/
def Live (p : Parser) : Prop :=
  p.lexError = none → ∀ t ∈ p.cur :: p.peek :: p.pending, t.kind ≠ .eof

theorem Live.advance_of {p : Parser} {e : LexError} (failed : p.ending = .error e)
    (ahead : p.lexError = none → ∀ t ∈ p.peek :: p.pending, t.kind ≠ .eof) : p.advance.Live := by
  intro none
  rcases advance_cases p with ⟨met, step⟩ | ⟨unmet, t, rest, pending, step⟩ |
      ⟨_, _, t, ended, step⟩ | ⟨_, _, e', _, step⟩ <;> rw [step] at none ⊢
  · have unmet : p.lexError = Option.none := none
    simp [unmet] at met
  · have real := ahead unmet
    rw [pending] at real
    simpa using real
  · rw [failed] at ended
    cases ended
  · cases none

theorem Live.advance {p : Parser} {e : LexError} (live : p.Live) (failed : p.ending = .error e) :
    p.advance.Live :=
  Live.advance_of failed fun none => (List.forall_mem_cons.1 (live none)).2

/-- How many moves are left before the lexical error is met: none once it is met. -/
def unread (p : Parser) : Nat := if p.lexError.isSome then 0 else p.pending.length + 1

theorem unread_le_rounds (p : Parser) : p.unread ≤ p.rounds := by
  unfold unread rounds
  split <;> omega

theorem unread_advance_le (p : Parser) : p.advance.unread ≤ p.unread := by
  rcases advance_cases p with ⟨met, step⟩ | ⟨none, t, rest, pending, step⟩ |
      ⟨none, pending, _, _, step⟩ | ⟨_, _, _, _, step⟩ <;> rw [step] <;> simp [unread, *]

theorem unread_advance_lt {p : Parser} {e : LexError} (none : p.lexError = none)
    (failed : p.ending = .error e) : p.advance.unread < p.unread := by
  rcases advance_cases p with ⟨met, _⟩ | ⟨_, t, rest, pending, step⟩ |
      ⟨_, _, t, ended, _⟩ | ⟨_, _, _, _, step⟩
  · simp [none] at met
  · rw [step]
    simp [unread, none, pending]
  · rw [failed] at ended
    cases ended
  · rw [step]
    simp [unread, none]

/-- A parser over a scan that failed with `e`: it meets no other lexical error, sees no end of
input before it meets `e`, and meets it within `n` moves. -/
structure Failing (e : LexError) (n : Nat) (p : Parser) : Prop where
  meets : p.Meets (.error e)
  live : p.Live
  bound : p.unread ≤ n

theorem Failing.advance {e : LexError} {n : Nat} {p : Parser} (failing : p.Failing e n) :
    p.advance.Failing e n :=
  ⟨failing.meets.advance, failing.live.advance failing.meets.ending,
    (unread_advance_le p).trans failing.bound⟩

theorem Failing.next {e : LexError} {n : Nat} {p : Parser} (failing : p.Failing e (n + 1))
    (none : p.lexError = none) : p.advance.Failing e n :=
  ⟨failing.meets.advance, failing.live.advance failing.meets.ending,
    Nat.le_of_lt_succ ((unread_advance_lt none failing.meets.ending).trans_le failing.bound)⟩

instance (e : LexError) (n : Nat) : Parse.Tracked (Failing e n) where
  scannable failing := failing.meets.scannable
  advance failing := failing.advance
  record _ _ failing :=
    ⟨⟨failing.meets.scannable, failing.meets.ending, failing.meets.met⟩, failing.live,
      failing.bound⟩

theorem Failing.met {e : LexError} {n : Nat} {p : Parser} (failing : p.Failing e n)
    (met : p.lexError.isSome) : p.lexError = some e := by
  obtain ⟨e', same⟩ := Option.isSome_iff_exists.1 met
  have failed := failing.meets.met e' same
  cases failed
  exact same

theorem Failing.met_of_ended {e : LexError} {n : Nat} {p : Parser} (failing : p.Failing e n)
    (ended : p.cur.kind = .eof) : p.lexError = some e := by
  refine failing.met (Option.isSome_iff_ne_none.2 fun none => ?_)
  exact failing.live none p.cur (by simp) ended

theorem Failing.met_of_zero {e : LexError} {p : Parser} (failing : p.Failing e 0) :
    p.lexError = some e := by
  refine failing.met ?_
  have bound := failing.bound
  unfold unread at bound
  split at bound
  · assumption
  · omega

theorem meets_ofScan (src : List UInt8) (limit : Nat) :
    (ofScan (Token.scan src) limit).Meets (Token.scan src).2 := by
  obtain ⟨tokens, ending⟩ := Token.scanFrom_scannable Pos.start src
  exact Meets.advance (Meets.advance
    ⟨scannable_of (eofAt_scannable _) (eofAt_scannable _) tokens ending, rfl,
      fun _ met => nomatch met⟩)

theorem failing_ofScan {src : List UInt8} {e : LexError} (failed : (Token.scan src).2 = .error e)
    (limit : Nat) :
    (ofScan (Token.scan src) limit).Failing e (ofScan (Token.scan src) limit).rounds := by
  refine ⟨failed ▸ meets_ofScan src limit, ?_, unread_le_rounds _⟩
  have real := Token.scanFrom_real Pos.start src
  unfold ofScan
  refine Live.advance_of (e := e) (by simpa using failed) fun none => ?_
  unfold Token.scan at failed
  cases scanned : (Token.scanFrom Pos.start src).1 with
  | nil => simp [Parser.advance, Token.scan, scanned, failed] at none
  | cons t rest =>
    rw [scanned] at real
    simpa [Parser.advance, Token.scan, scanned] using real

theorem finish_lexical_iff (p : Parser) (stmts : List Stmt) (e : LexError) :
    (∃ recorded, p.finish stmts = .error (.lexical e recorded)) ↔ p.lexError = some e := by
  unfold finish
  cases p.lexError with
  | some e' => simp [eq_comm]
  | none =>
    simp only [reduceCtorEq, iff_false, not_exists]
    intro recorded
    split <;> simp

end Parser

namespace Parse

open Monkey.Parser

/-- One statement at the top level, with its halts caught: a given-up statement is skipped whole,
and a dropped one adds nothing. -/
def topStatement (limit : Nat) (acc : Array Stmt) : ParseM (Array Stmt) :=
  try
    match ← statement limit 0 with
    | some s => pure (acc.push s)
    | none => pure acc
  catch
    | .abandoned opened => do
      skipGivenUp opened (← get).rounds
      pure acc
    | .failed => pure acc

theorem program_round (acc : Array Stmt) (fuel : Nat) {p : Parser} (real : p.cur.kind ≠ .eof) :
    (program acc (fuel + 1)).run p =
      (topStatement p.limit acc >>= fun acc' => afterStatement acc' fuel).run p := by
  rw [program.eq_2, run_bind_ok (get_run p), if_neg (by simpa using real)]
  rfl

/-- The step returns from every state: it never halts. -/
def Returns {α : Type} (x : ParseM α) : Prop := ∀ p, ∃ a q, x.run p = .ok a q

section Returns

variable {α β : Type}

theorem Returns.pure (a : α) : Returns (Pure.pure a : ParseM α) := fun p => ⟨a, p, rfl⟩

theorem Returns.bind {x : ParseM α} {k : α → ParseM β} (first : Returns x)
    (second : ∀ a, Returns (k a)) : Returns (x >>= k) := by
  intro p
  obtain ⟨a, q, run⟩ := first p
  rw [run_bind_ok run]
  exact second a q

theorem Returns.tryCatch {x : ParseM α} {handler : Halt → ParseM α}
    (recovers : ∀ h, Returns (handler h)) : Returns (tryCatch x handler) := by
  intro p
  rw [EStateM.run_tryCatch]
  cases x.run p with
  | ok a q => exact ⟨a, q, rfl⟩
  | error h q => exact recovers h q

end Returns

theorem skipGivenUp_returns (opened : Int) (fuel : Nat) : Returns (skipGivenUp opened fuel) := by
  induction fuel generalizing opened with
  | zero => exact Returns.pure ()
  | succ fuel ih =>
    rw [skipGivenUp.eq_2]
    refine Returns.bind (fun p => ⟨p, p, get_run p⟩) fun p => ?_
    split
    · exact Returns.pure ()
    · split
      · exact Returns.bind (fun q => ⟨(), _, next_run q⟩) fun _ => ih _
      · split
        · exact Returns.pure ()
        · exact Returns.bind (fun q => ⟨(), _, next_run q⟩) fun _ => ih _
      · split
        · exact Returns.pure ()
        · exact Returns.bind (fun q => ⟨(), _, next_run q⟩) fun _ => ih _
      · exact Returns.bind (fun q => ⟨(), _, next_run q⟩) fun _ => ih _

theorem topStatement_returns (limit : Nat) (acc : Array Stmt) : Returns (topStatement limit acc) :=
  Returns.tryCatch fun h => by
    cases h with
    | abandoned opened =>
      exact Returns.bind (fun p => ⟨p, p, get_run p⟩) fun p =>
        Returns.bind (skipGivenUp_returns _ _) fun _ => Returns.pure acc
    | failed => exact Returns.pure acc

variable {I : Parser → Prop} [Tracked I] in
theorem topStatement_keeps (limit : Nat) (acc : Array Stmt) :
    Keeps I (topStatement limit acc) fun _ => True := by
  refine Keeps.tryCatch (Keeps.bind (statement_keeps _ _) fun o _ => ?_) fun h => ?_
  · split
    · exact Keeps.pure trivial
    · exact Keeps.pure trivial
  · cases h with
    | abandoned opened =>
      exact Keeps.bind Keeps.get fun q _ => Keeps.bind (skipGivenUp_keeps _ _) fun _ _ =>
        Keeps.pure trivial
    | failed => exact Keeps.pure trivial

theorem program_meets_lexError {e : LexError} (fuel : Nat) (acc : Array Stmt) {p : Parser}
    (failing : p.Failing e fuel) : (landing ((program acc fuel).run p)).lexError = some e := by
  -- every round moves on at least once, and each move before the error brings it nearer
  induction fuel generalizing acc p with
  | zero => exact failing.met_of_zero
  | succ fuel ih =>
    by_cases ended : p.cur.kind = .eof
    · rw [program_at_end acc _ ended]
      exact failing.met_of_ended ended
    · rw [program_round acc fuel ended]
      obtain ⟨acc', q, run⟩ := topStatement_returns p.limit acc p
      have kept : q.Failing e (fuel + 1) := by
        simpa [run, landing] using ((topStatement_keeps p.limit acc).at failing).1
      rw [run_bind_ok run, afterStatement, run_bind_ok (get_run q)]
      cases met : q.lexError with
      | some e' =>
        simp only [Option.isSome_some, if_true]
        exact kept.met (by simp [met])
      | none =>
        simp only [Option.isSome_none, Bool.false_eq_true, if_false]
        rw [run_bind_ok (next_run q)]
        exact ih acc' (kept.next met)

end Parse

open Monkey.Parser Monkey.Parse in
theorem parseWith_finish (limit : Nat) (src : List UInt8) :
    ∃ stmts, Program.parseWith limit src =
      (landing ((program #[] (ofScan (Token.scan src) limit).rounds).run
        (ofScan (Token.scan src) limit))).finish stmts := by
  unfold Program.parseWith
  dsimp only
  cases (program #[] _).run _ with
  | ok stmts q => exact ⟨stmts, rfl⟩
  | error h q => exact ⟨[], rfl⟩

open Monkey.Parser Monkey.Parse in
theorem parseWith_lexical_iff (limit : Nat) (src : List UInt8) (e : LexError) :
    (∃ recorded, Program.parseWith limit src = .error (.lexical e recorded)) ↔
      (Token.scan src).2 = .error e := by
  obtain ⟨stmts, finished⟩ := parseWith_finish limit src
  rw [finished, finish_lexical_iff]
  constructor
  · intro met
    exact ((program_keeps #[] rfl _).at (meets_ofScan src limit)).1.met e met
  · intro failed
    exact program_meets_lexError _ #[] (failing_ofScan failed limit)

/-- A parse fails with a lexical error exactly when its source holds a bad run of digits: a maximal
run that runs into a letter or names a value past the largest 32-bit integer. The error is then
that of the first such run, at the line and column of its first digit, with a message that quotes
the run and the letter after it or says that the run overflows; it takes the place of the syntax
errors recorded before it. The scanner fails with the same error, and gives it again on every
later call. -/
theorem lexical_error_iff_bad_run (src : List UInt8) :
    ((∃ e recorded, Program.parse src = .error (.lexical e recorded)) ↔
      ∃ pre run post, src = pre ++ run ++ post ∧ Token.BadRun pre run post) ∧
    ∀ e : LexError, (∃ recorded, Program.parse src = .error (.lexical e recorded)) ↔
      (Token.scan src).2 = .error e ∧
      (∀ n, (Lexer.ofBytes src).calls ((Token.scan src).1.length + 1 + n) =
        (Token.scan src).1.map .ok ++ List.replicate (n + 1) (.error e)) ∧
      ∃ pre run post, Token.FirstBadRun src pre run post ∧
        e.pos = ⟨pre.count 10 + 1, (pre.reverse.takeWhile (· != 10)).length⟩ ∧
        e.fault = Token.badRunFault run post ∧
        e.fault.message =
          if Token.startsWithLetter post then
            "invalid integer literal " ++
              String.ofList ('"' :: Token.spelling (run ++ post.take 1) ++ ['"'])
          else "integer literal " ++ String.ofList (Token.spelling run) ++ " overflows int32" := by
  have scanned (e : LexError) := Token.scanFrom_error_iff Pos.start src e
  refine ⟨⟨?_, ?_⟩, fun e => ?_⟩
  · rintro ⟨e, recorded, parsed⟩
    obtain ⟨pre, run, post, first, -⟩ :=
      (scanned e).1 ((parseWith_lexical_iff _ src e).1 ⟨recorded, parsed⟩)
    exact ⟨pre, run, post, first.split, first.badRun⟩
  · intro bad
    obtain ⟨pre, run, post, first⟩ := Token.FirstBadRun.exists bad
    obtain ⟨recorded, parsed⟩ :=
      (parseWith_lexical_iff _ src _).2 ((scanned _).2 ⟨pre, run, post, first, rfl⟩)
    exact ⟨_, recorded, parsed⟩
  · rw [Program.parse, parseWith_lexical_iff]
    constructor
    · intro failed
      obtain ⟨pre, run, post, first, rfl⟩ := (scanned e).1 failed
      have whole : Token.scanFrom Pos.start src = ((Token.scan src).1, .error _) :=
        Prod.ext rfl failed
      exact ⟨failed, Lexer.calls_scanFrom_error whole, pre, run, post, first,
        Pos.start_advanceAll pre, rfl, first.badRun.message⟩
    · rintro ⟨failed, -⟩
      exact failed

end Monkey
