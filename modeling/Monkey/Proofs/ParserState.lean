import Monkey.Syntax.Parse
import Mathlib

/-!
# What parsing does to the parser's state

A parser that reads a scan ended without a lexical error holds the kinds of its tokens as one list,
`view`: the current token's and those after it, through the end of input. Parsing only moves on
through this list and records errors. `Reach` says so of two states, and `Moves` of a parse step:
every run of it from a valid state, whether it returns or halts, ends in a state it reaches.
`moves_of_parse` shows that every parse function moves so. Since errors only grow along a run, a
run that ends with no more errors than it began with records none on the way, which is what lets
the parser be compared with the grammar on such runs alone.

`statement_run` restates the statement parser with its recovery as one handler, in the shape the
proofs about it use.
-/

set_option autoImplicit false
set_option relaxedAutoImplicit false

namespace Monkey

namespace Parser

/-- Kinds of tokens up to the first end of input, which closes them; kinds without one are closed
by the end of input that the scan ends with. -/
def upToEnd : List Token.Kind → List Token.Kind
  | [] => [.eof]
  | k :: ks => if k = .eof then [.eof] else k :: upToEnd ks

/-- The kinds of the tokens from the current one through the end of input. -/
def view (p : Parser) : List Token.Kind := upToEnd ((p.cur :: p.peek :: p.pending).map Token.kind)

/-- The kinds of the tokens after the current one, through the end of input. -/
def rest (p : Parser) : List Token.Kind := p.view.tail

/-- How many tokens follow the current one, the end of input included. -/
def left (p : Parser) : Nat := p.rest.length

/-- The parser reads a scan that ended without a lexical error: the scanned tokens still to come
are real ones, and once the end of input is in view it stays there. -/
structure Valid (p : Parser) : Prop where
  noLexError : p.lexError = none
  ending : ∃ t, p.ending = .ok t ∧ t.kind = .eof
  pending : ∀ t ∈ p.pending, t.kind ≠ .eof
  curEnd : p.cur.kind = .eof → p.peek.kind = .eof
  peekEnd : p.peek.kind = .eof → p.pending = []

@[simp] theorem upToEnd_eof (ks : List Token.Kind) : upToEnd (.eof :: ks) = [.eof] := if_pos rfl

theorem upToEnd_of_ne {k : Token.Kind} (ks : List Token.Kind) (real : k ≠ .eof) :
    upToEnd (k :: ks) = k :: upToEnd ks :=
  if_neg real

theorem upToEnd_append_eof (ks : List Token.Kind) : upToEnd (ks ++ [.eof]) = upToEnd ks := by
  induction ks with
  | nil => rfl
  | cons k ks ih =>
    by_cases ended : k = .eof
    · subst ended
      simp
    · rw [List.cons_append, upToEnd_of_ne _ ended, upToEnd_of_ne _ ended, ih]

theorem headD_upToEnd (k : Token.Kind) (ks : List Token.Kind) :
    (upToEnd (k :: ks)).headD .eof = k := by
  by_cases ended : k = .eof
  · subst ended
    simp
  · simp [upToEnd_of_ne _ ended]

theorem length_upToEnd_le (ks : List Token.Kind) : (upToEnd ks).length ≤ ks.length + 1 := by
  induction ks with
  | nil => simp [upToEnd]
  | cons k ks ih =>
    by_cases ended : k = .eof
    · subst ended
      simp
    · simp only [upToEnd_of_ne _ ended, List.length_cons]
      omega

theorem view_eq_cons (p : Parser) : p.view = p.cur.kind :: p.rest := by
  unfold rest view
  by_cases ended : p.cur.kind = .eof
  · simp [ended]
  · rw [List.map_cons, upToEnd_of_ne _ ended]
    rfl

theorem rest_of_eof {p : Parser} (ended : p.cur.kind = .eof) : p.rest = [] := by
  simp [rest, view, ended]

theorem cur_ne_eof_of_mem {p : Parser} (later : .eof ∈ p.rest) : p.cur.kind ≠ .eof :=
  fun ended => by simp [rest_of_eof ended] at later

theorem rest_of_ne {p : Parser} (real : p.cur.kind ≠ .eof) :
    p.rest = upToEnd ((p.peek :: p.pending).map Token.kind) := by
  simp only [rest, view, List.map_cons, upToEnd_of_ne _ real, List.tail_cons]

theorem rest_ne_nil {p : Parser} (real : p.cur.kind ≠ .eof) : p.rest ≠ [] := by
  rw [rest_of_ne real, List.map_cons]
  by_cases ended : p.peek.kind = .eof
  · simp [ended]
  · simp [upToEnd_of_ne _ ended]

theorem cur_eof_iff {p : Parser} : p.cur.kind = .eof ↔ p.rest = [] :=
  ⟨rest_of_eof, fun empty => Classical.byContradiction fun real => rest_ne_nil real empty⟩

theorem left_le_rounds (p : Parser) : p.left ≤ p.rounds := by
  have bound := length_upToEnd_le ((p.cur :: p.peek :: p.pending).map Token.kind)
  simp only [List.length_map, List.length_cons] at bound
  simp only [left, rest, List.length_tail, rounds]
  unfold view
  omega

theorem Valid.peek_kind {p : Parser} (valid : p.Valid) : p.peek.kind = p.rest.headD .eof := by
  by_cases ended : p.cur.kind = .eof
  · rw [rest_of_eof ended, valid.curEnd ended]
    rfl
  · rw [rest_of_ne ended, List.map_cons, headD_upToEnd]

theorem Valid.advance_of_cons {p : Parser} (valid : p.Valid) {t : Token} {ts : List Token}
    (pending : p.pending = t :: ts) :
    p.advance = { p with cur := p.peek, peek := t, pending := ts } := by
  simp [Parser.advance, valid.noLexError, pending]

theorem Valid.advance_of_nil {p : Parser} (valid : p.Valid) {t : Token}
    (ending : p.ending = .ok t) (pending : p.pending = []) :
    p.advance = { p with cur := p.peek, peek := t } := by
  simp [Parser.advance, valid.noLexError, pending, ending]

theorem Valid.advance {p : Parser} (valid : p.Valid) : p.advance.Valid := by
  obtain ⟨t, ending, eof⟩ := valid.ending
  cases pending : p.pending with
  | cons u us =>
    rw [valid.advance_of_cons pending]
    have real := valid.pending
    rw [pending] at real
    refine ⟨valid.noLexError, ⟨t, ending, eof⟩, fun v mem => real v (List.mem_cons_of_mem _ mem),
      fun ended => ?_, fun ended => absurd ended (real u List.mem_cons_self)⟩
    rw [valid.peekEnd ended] at pending
    cases pending
  | nil =>
    rw [valid.advance_of_nil ending pending]
    exact ⟨valid.noLexError, ⟨t, ending, eof⟩, by simp [pending], fun _ => eof, fun _ => pending⟩

theorem Valid.view_advance {p : Parser} (valid : p.Valid) (real : p.cur.kind ≠ .eof) :
    p.advance.view = p.rest := by
  rw [rest_of_ne real]
  obtain ⟨t, ending, eof⟩ := valid.ending
  cases pending : p.pending with
  | cons u us =>
    rw [valid.advance_of_cons pending]
    rfl
  | nil =>
    rw [valid.advance_of_nil ending pending]
    simp only [view, List.map_cons, List.map_nil, eof]
    exact upToEnd_append_eof [p.peek.kind]

theorem Valid.view_advance_of_eof {p : Parser} (valid : p.Valid) (ended : p.cur.kind = .eof) :
    p.advance.view = p.view := by
  obtain ⟨t, ending, eof⟩ := valid.ending
  have peekEnded := valid.curEnd ended
  rw [valid.advance_of_nil ending (valid.peekEnd peekEnded)]
  simp [view, peekEnded, ended]

@[simp] theorem errors_advance (p : Parser) : p.advance.errors = p.errors := by
  unfold Parser.advance
  split
  · rfl
  · split
    · rfl
    · split <;> rfl

@[simp] theorem limit_advance (p : Parser) : p.advance.limit = p.limit := by
  unfold Parser.advance
  split
  · rfl
  · split
    · rfl
    · split <;> rfl

@[simp] theorem cur_advance (p : Parser) : p.advance.cur = p.peek := by
  unfold Parser.advance
  split
  · rfl
  · split
    · rfl
    · split <;> rfl

theorem Valid.left_advance {p : Parser} (valid : p.Valid) (real : p.cur.kind ≠ .eof) :
    p.advance.left + 1 = p.left := by
  have nonempty : p.rest.length ≠ 0 :=
    fun zero => rest_ne_nil real (List.eq_nil_of_length_eq_zero zero)
  have tail : p.advance.rest = p.rest.tail := by rw [rest, valid.view_advance real]
  rw [left, left, tail, List.length_tail]
  omega

/-- What parsing does to a state: it moves on through the tokens and records errors, keeping the
scan and the limit. -/
structure Reach (p q : Parser) : Prop where
  valid : q.Valid
  limit : q.limit = p.limit
  suffix : q.view <:+ p.view
  errors : p.errors.toList <+: q.errors.toList

theorem Reach.refl {p : Parser} (valid : p.Valid) : Reach p p :=
  ⟨valid, rfl, List.suffix_refl _, List.prefix_refl _⟩

theorem Reach.trans {p q r : Parser} (first : Reach p q) (second : Reach q r) : Reach p r :=
  ⟨second.valid, second.limit.trans first.limit, second.suffix.trans first.suffix,
    first.errors.trans second.errors⟩

theorem Reach.advance {p : Parser} (valid : p.Valid) : Reach p p.advance := by
  refine ⟨valid.advance, limit_advance p, ?_, by simp⟩
  by_cases ended : p.cur.kind = .eof
  · rw [valid.view_advance_of_eof ended]
  · rw [valid.view_advance ended, view_eq_cons]
    exact List.suffix_cons _ _

theorem Reach.left_le {p q : Parser} (reach : Reach p q) : q.left ≤ p.left := by
  have lengths := reach.suffix.length_le
  rw [view_eq_cons, view_eq_cons] at lengths
  simp only [List.length_cons] at lengths
  simp only [left]
  omega

theorem view_cons {p : Parser} {k : Token.Kind} {ts : List Token.Kind} (h : p.view = k :: ts) :
    p.cur.kind = k ∧ p.rest = ts := by
  rw [view_eq_cons] at h
  exact List.cons.inj h

theorem Valid.step {p : Parser} (valid : p.Valid) {k : Token.Kind} {ts : List Token.Kind}
    (h : p.rest = k :: ts) : p.peek.kind = k ∧ p.advance.view = k :: ts := by
  have real : p.cur.kind ≠ .eof := fun ended => by
    rw [rest_of_eof ended] at h
    cases h
  exact ⟨by rw [valid.peek_kind, h]; rfl, by rw [valid.view_advance real, h]⟩

theorem Valid.rest_cases {p : Parser} (valid : p.Valid) :
    p.rest = [] ∨ ∃ ts, p.rest = p.peek.kind :: ts := by
  have peek := valid.peek_kind
  cases rest : p.rest with
  | nil => exact .inl rfl
  | cons k ts =>
    rw [rest] at peek
    exact .inr ⟨ts, by rw [peek]; rfl⟩

theorem Valid.rest_of_peek {p : Parser} (valid : p.Valid) {k : Token.Kind}
    (h : p.peek.kind = k) (real : k ≠ .eof) : ∃ ts, p.rest = k :: ts := by
  rcases valid.rest_cases with ended | found
  · rw [valid.peek_kind, ended] at h
    exact absurd h.symm real
  · rwa [h] at found

theorem Valid.rest_eq_peek {p : Parser} (valid : p.Valid) (real : p.cur.kind ≠ .eof) :
    ∃ ts, p.rest = p.peek.kind :: ts :=
  valid.rest_cases.resolve_left (rest_ne_nil real)

theorem Valid.advance_of_rest {p : Parser} {k : Token.Kind} {ts : List Token.Kind}
    (valid : p.Valid) (rest : p.rest = k :: ts) :
    p.advance.view = k :: ts ∧ p.advance.cur.kind = k ∧ p.advance.rest = ts ∧
      p.advance.left + 1 = p.left := by
  have real : p.cur.kind ≠ .eof := fun ended => by
    rw [rest_of_eof ended] at rest
    cases rest
  have view := valid.view_advance real
  rw [rest] at view
  obtain ⟨cur, left⟩ := view_cons view
  exact ⟨view, cur, left, valid.left_advance real⟩

theorem Valid.head_rest {p : Parser} (valid : p.Valid) {k : Token.Kind}
    (other : p.peek.kind ≠ k) : p.rest.head? ≠ some k := by
  rcases valid.rest_cases with ended | ⟨ts, after⟩
  · simp [ended]
  · rw [after]
    exact fun same => other (Option.some.inj same)

theorem eof_mem_upToEnd (ks : List Token.Kind) : .eof ∈ upToEnd ks := by
  induction ks with
  | nil => simp [upToEnd]
  | cons k ks ih =>
    by_cases ended : k = .eof
    · subst ended
      simp
    · rw [upToEnd_of_ne _ ended]
      exact List.mem_cons_of_mem _ ih

theorem eof_mem_view (p : Parser) : .eof ∈ p.view := eof_mem_upToEnd _

theorem Reach.size_le {p q : Parser} (reach : Reach p q) : p.errors.size ≤ q.errors.size := by
  simpa using reach.errors.length_le

theorem Reach.within {p q : Parser} {n : Nat} (reach : Reach p q) (bound : q.errors.size ≤ n) :
    p.errors.size ≤ n :=
  reach.size_le.trans bound

theorem Reach.errors_eq {p q : Parser} (reach : Reach p q)
    (quiet : q.errors.size ≤ p.errors.size) : q.errors = p.errors := by
  have same := reach.errors.eq_of_length (by simpa using (Nat.le_antisymm quiet
    (by simpa using reach.errors.length_le)).symm)
  exact Array.toList_inj.1 same.symm

theorem Reach.view_eq {p q : Parser} (reach : Reach p q) (same : q.rest = p.rest) :
    q.view = p.view := by
  apply reach.suffix.eq_of_length
  rw [view_eq_cons, view_eq_cons, same]
  rfl

end Parser

namespace Parse

open Monkey.Parser

/-- The state a run ends in, whether it returns or halts. -/
def landing {α : Type} : EStateM.Result Halt Parser α → Parser
  | .ok _ q => q
  | .error _ q => q

/-- Every run of the step from a valid state ends in a state it reaches. -/
def Moves {α : Type} (x : ParseM α) : Prop := ∀ p, p.Valid → Reach p (landing (x.run p))

theorem Moves.pure {α : Type} (a : α) : Moves (Pure.pure a : ParseM α) :=
  fun _ valid => .refl valid

theorem Moves.throw {α : Type} (h : Halt) : Moves (MonadExcept.throw h : ParseM α) :=
  fun _ valid => .refl valid

theorem Moves.get : Moves (MonadState.get : ParseM Parser) :=
  fun _ valid => .refl valid

theorem Moves.bind {α β : Type} {x : ParseM α} {k : α → ParseM β} (first : Moves x)
    (second : ∀ a, Moves (k a)) : Moves (x >>= k) := by
  intro p valid
  have reach := first p valid
  rw [EStateM.run_bind]
  cases run : x.run p with
  | ok a q =>
    rw [run] at reach
    exact reach.trans (second a q reach.valid)
  | error e q =>
    rw [run] at reach
    exact reach

theorem Moves.throw_bind {α β : Type} (h : Halt) (k : α → ParseM β) :
    Moves (MonadExcept.throw h >>= k) :=
  fun _ valid => .refl valid

theorem Moves.tryCatch {α : Type} {x : ParseM α} {handler : Halt → ParseM α} (body : Moves x)
    (recovers : ∀ h, Moves (handler h)) : Moves (tryCatch x handler) := by
  intro p valid
  have reach := body p valid
  rw [EStateM.run_tryCatch]
  cases run : x.run p with
  | ok a q =>
    rw [run] at reach
    exact reach
  | error h q =>
    rw [run] at reach
    exact reach.trans (recovers h q reach.valid)

theorem next_moves : Moves next := fun _ valid => .advance valid

theorem current_moves : Moves current := Moves.bind Moves.get fun _ => Moves.pure _

theorem upcoming_moves : Moves upcoming := Moves.bind Moves.get fun _ => Moves.pure _

theorem record_moves (tok : Token) (fault : SyntaxFault) : Moves (record tok fault) := by
  intro p valid
  refine ⟨⟨valid.noLexError, valid.ending, valid.pending, valid.curEnd, valid.peekEnd⟩, rfl,
    List.suffix_refl _, ?_⟩
  show p.errors.toList <+: (p.errors.push _).toList
  simp

theorem expected_moves (want : Wanted) (got : Token) : Moves (expected want got) :=
  record_moves got _

theorem expectNext_moves (want : Wanted) : Moves (expectNext want) := by
  rw [expectNext]
  refine Moves.bind upcoming_moves fun t => ?_
  split
  · exact Moves.bind next_moves fun _ => Moves.pure _
  · exact Moves.bind (expected_moves want t) fun _ => Moves.pure _

/-- The statement that a current token of kind `k` starts, before any recovery. -/
def statementBody (b opened : Nat) : Token.Kind → ParseM (Option Stmt)
  | .semicolon => Pure.pure none
  | .kwLet => letStatement b opened
  | .kwReturn => returnStatement b opened
  | _ => do
    let e ← expression b opened 0
    if (← upcoming).kind == .semicolon then next
    return some (.expr e)

/-- A malformed statement is dropped; a statement given up whole passes its halt on. -/
def dropFailed : Halt → ParseM (Option Stmt)
  | .failed => Pure.pure none
  | h => MonadExcept.throw h

theorem statement_run (b opened : Nat) (p : Parser) :
    (statement b opened).run p = (tryCatch (statementBody b opened p.cur.kind) dropFailed).run p := by
  rw [statement]
  simp only [current, EStateM.run_bind, EStateM.run_get, EStateM.run_pure]
  generalize p.cur.kind = k
  cases k
  case semicolon => rfl
  case kwLet =>
    simp only [statementBody, EStateM.run_tryCatch, EStateM.run_bind]
    rcases (letStatement b opened).run p with ⟨o, q⟩ | ⟨h, q⟩
    · rfl
    · cases h <;> rfl
  case kwReturn =>
    simp only [statementBody, EStateM.run_tryCatch, EStateM.run_bind]
    rcases (returnStatement b opened).run p with ⟨o, q⟩ | ⟨h, q⟩
    · rfl
    · cases h <;> rfl
  -- every other token starts an expression statement
  all_goals
    simp only [statementBody, EStateM.run_tryCatch, EStateM.run_bind]
    rcases (expression b opened 0).run p with ⟨e, q⟩ | ⟨h, q⟩
    · simp only [upcoming, EStateM.run_bind, EStateM.run_get, EStateM.run_pure]
      cases (q.peek.kind == Token.Kind.semicolon) <;> rfl
    · cases h <;> rfl

theorem dropFailed_moves (h : Halt) : Moves (dropFailed h) := by
  cases h
  · exact Moves.pure _
  · exact Moves.throw _

theorem skipWhile_moves (cond : Parser → Bool) (fuel : Nat) : Moves (skipWhile cond fuel) := by
  induction fuel with
  | zero => exact Moves.pure _
  | succ fuel ih =>
    rw [skipWhile.eq_2]
    refine Moves.bind Moves.get fun p => ?_
    split
    · exact Moves.bind next_moves fun _ => ih
    · exact Moves.pure _

theorem skipAll_moves (cond : Parser → Bool) : Moves (skipAll cond) :=
  Moves.bind Moves.get fun p => skipWhile_moves cond p.rounds

theorem skipGivenUp_moves (opened : Int) (fuel : Nat) : Moves (skipGivenUp opened fuel) := by
  induction fuel generalizing opened with
  | zero => exact Moves.pure _
  | succ fuel ih =>
    rw [skipGivenUp.eq_2]
    refine Moves.bind Moves.get fun p => ?_
    split
    · exact Moves.pure _
    · split
      · exact Moves.bind next_moves fun _ => ih _
      · split
        · exact Moves.pure _
        · exact Moves.bind next_moves fun _ => ih _
      · split
        · exact Moves.pure _
        · exact Moves.bind next_moves fun _ => ih _
      · exact Moves.bind next_moves fun _ => ih _

theorem paramsFrom_moves (acc : Array String) (fuel : Nat) : Moves (paramsFrom acc fuel) := by
  induction fuel generalizing acc with
  | zero => exact Moves.throw _
  | succ fuel ih =>
    rw [paramsFrom.eq_2]
    refine Moves.bind current_moves fun c => ?_
    split
    · refine Moves.bind upcoming_moves fun t => ?_
      split
      · exact Moves.bind next_moves fun _ => Moves.bind next_moves fun _ => ih _
      · split
        · exact Moves.bind next_moves fun _ => Moves.pure _
        · exact Moves.bind (expected_moves _ _) fun _ => Moves.throw _
    · exact Moves.bind (expected_moves _ _) fun _ => Moves.throw _

theorem params_moves : Moves params := by
  rw [params.eq_1]
  refine Moves.bind upcoming_moves fun t => ?_
  split
  · exact Moves.bind next_moves fun _ => Moves.pure _
  · exact Moves.bind next_moves fun _ => Moves.bind Moves.get fun p => paramsFrom_moves _ _

/-- Every parse function moves. -/
theorem moves_of_parse :
    (∀ b opened min, Moves (expression b opened min)) ∧
    (∀ b opened min left fuel, Moves (operators b opened min left fuel)) ∧
    (∀ b opened callee, Moves (callArgs b opened callee)) ∧
    (∀ b opened acc fuel, Moves (argsFrom b opened acc fuel)) ∧
    (∀ b opened, Moves (operand b opened)) ∧
    (∀ b opened, Moves (function b opened)) ∧
    (∀ b opened, Moves (block b opened)) ∧
    (∀ b opened acc fuel, Moves (blockFrom b opened acc fuel)) ∧
    (∀ b opened, Moves (statement b opened)) ∧
    (∀ b opened, Moves (letStatement b opened)) ∧
    (∀ b opened, Moves (returnStatement b opened)) ∧
    (∀ b opened, Moves (conditional b opened)) := by
  refine Parse.expression.mutual_induct
    (fun b opened min => Moves (expression b opened min))
    (fun b opened min left fuel => Moves (operators b opened min left fuel))
    (fun b opened callee => Moves (callArgs b opened callee))
    (fun b opened acc fuel => Moves (argsFrom b opened acc fuel))
    (fun b opened => Moves (operand b opened))
    (fun b opened => Moves (function b opened))
    (fun b opened => Moves (block b opened))
    (fun b opened acc fuel => Moves (blockFrom b opened acc fuel))
    (fun b opened => Moves (statement b opened))
    (fun b opened => Moves (letStatement b opened))
    (fun b opened => Moves (returnStatement b opened))
    (fun b opened => Moves (conditional b opened))
    ?_ ?_ ?_ ?_ ?_ ?_ ?_ ?_ ?_ ?_ ?_ ?_ ?_ ?_ ?_ ?_
  · intro opened min
    rw [expression.eq_1]
    exact Moves.bind Moves.get fun p => Moves.bind (record_moves _ _) fun _ => Moves.throw _
  · intro b opened min operand operators
    rw [expression.eq_2]
    exact Moves.bind operand fun _ => Moves.bind Moves.get fun p => operators _ p
  · intro b opened min left
    rw [operators.eq_1]
    exact Moves.pure _
  · intro b opened min left fuel callArgs afterCall right afterBinop
    rw [operators.eq_2]
    refine Moves.bind upcoming_moves fun t => ?_
    split
    · exact Moves.pure _
    · split
      · exact Moves.bind next_moves fun _ => Moves.bind callArgs afterCall
      · split
        · exact Moves.bind next_moves fun _ => Moves.bind next_moves fun _ =>
            Moves.bind (right t) fun _ => afterBinop _ _
        · exact Moves.pure _
  · intro b opened callee args
    rw [callArgs.eq_1]
    refine Moves.bind upcoming_moves fun t => ?_
    split
    · exact Moves.bind next_moves fun _ => Moves.pure _
    · refine Moves.bind next_moves fun _ => Moves.bind Moves.get fun p =>
        Moves.bind (args p) fun _ => Moves.bind (expectNext_moves _) fun ok => ?_
      split
      · exact Moves.pure _
      · exact Moves.throw _
  · intro b opened acc
    rw [argsFrom.eq_1]
    exact Moves.pure _
  · intro b opened acc fuel first more
    rw [argsFrom.eq_2]
    refine Moves.bind first fun arg => Moves.bind upcoming_moves fun t => ?_
    split
    · exact Moves.bind next_moves fun _ => Moves.bind next_moves fun _ => more arg
    · exact Moves.pure _
  · intro b opened unary inner conditional function
    rw [operand.eq_1]
    refine Moves.bind current_moves fun c => ?_
    split
    · exact Moves.pure _
    · exact Moves.bind next_moves fun _ => Moves.bind unary fun _ => Moves.pure _
    · refine Moves.bind next_moves fun _ => Moves.bind inner fun _ =>
        Moves.bind (expectNext_moves _) fun ok => ?_
      split
      · exact Moves.pure _
      · exact Moves.throw _
    · exact conditional
    · exact function
    · exact Moves.bind (expected_moves _ _) fun _ => Moves.throw _
  · intro b opened block
    rw [function.eq_1]
    refine Moves.bind (expectNext_moves _) fun ok => ?_
    dsimp only
    -- a failed expectation halts, so only the way on needs to move
    split
    · refine Moves.bind params_moves fun _ => Moves.bind (expectNext_moves _) fun ok' => ?_
      split
      · exact Moves.bind block fun _ => Moves.pure _
      · exact Moves.throw_bind _ _
    · exact Moves.throw_bind _ _
  · intro b opened statements
    rw [block.eq_1]
    refine Moves.bind next_moves fun _ => Moves.bind Moves.get fun p =>
      Moves.bind (statements p) fun _ => Moves.bind current_moves fun c => ?_
    dsimp only
    split
    · exact Moves.bind (expected_moves _ _) fun _ => Moves.pure _
    · exact Moves.pure _
  · intro b opened acc
    rw [blockFrom.eq_1]
    exact Moves.pure _
  · intro b opened acc fuel statement more same
    rw [blockFrom.eq_2]
    refine Moves.bind current_moves fun c => ?_
    split
    · exact Moves.pure _
    · refine Moves.bind statement fun o => ?_
      split
      · exact Moves.bind next_moves fun _ => more _
      · refine Moves.bind current_moves fun c' => ?_
        split
        · exact Moves.pure _
        · exact Moves.bind next_moves fun _ => same
  · intro b opened returns binds value p valid
    rw [statement_run]
    refine Moves.tryCatch ?_ dropFailed_moves p valid
    unfold statementBody
    split
    · exact Moves.pure _
    · exact binds
    · exact returns
    · refine Moves.bind value fun _ => Moves.bind upcoming_moves fun t => ?_
      split
      · exact Moves.bind next_moves fun _ => Moves.pure _
      · exact Moves.pure _
  · intro b opened value
    rw [letStatement.eq_1]
    refine Moves.bind (expectNext_moves _) fun ok => ?_
    split
    · refine Moves.bind current_moves fun c => Moves.bind (expectNext_moves _) fun ok' => ?_
      split
      · refine Moves.bind next_moves fun _ => Moves.bind value fun _ =>
          Moves.bind upcoming_moves fun t => ?_
        dsimp only
        split
        · exact Moves.bind next_moves fun _ => Moves.pure _
        · exact Moves.pure _
      · exact Moves.bind (skipAll_moves _) fun _ => Moves.pure _
    · exact Moves.bind (skipAll_moves _) fun _ => Moves.pure _
  · intro b opened value
    rw [returnStatement.eq_1]
    refine Moves.bind upcoming_moves fun t => ?_
    split
    · dsimp only
      split
      · exact Moves.bind next_moves fun _ => Moves.pure _
      · exact Moves.pure _
    · refine Moves.bind next_moves fun _ => Moves.bind value fun _ =>
        Moves.bind (skipAll_moves _) fun _ => Moves.bind upcoming_moves fun t => ?_
      dsimp only
      split
      · exact Moves.bind next_moves fun _ => Moves.pure _
      · exact Moves.pure _
  · intro b opened test block
    rw [conditional.eq_1]
    refine Moves.bind (expectNext_moves _) fun ok => ?_
    dsimp only
    split
    · refine Moves.bind next_moves fun _ => Moves.bind test fun _ =>
        Moves.bind (expectNext_moves _) fun ok => ?_
      split
      · refine Moves.bind (expectNext_moves _) fun ok => ?_
        split
        · refine Moves.bind block fun _ => Moves.bind upcoming_moves fun t => ?_
          split
          · refine Moves.bind next_moves fun _ => Moves.bind (expectNext_moves _) fun ok => ?_
            split
            · exact Moves.bind block fun _ => Moves.pure _
            · exact Moves.throw_bind _ _
          · exact Moves.pure _
        · exact Moves.throw_bind _ _
      · exact Moves.throw_bind _ _
    · exact Moves.throw_bind _ _

theorem blockFrom_moves (b opened : Nat) (acc : Array Stmt) (fuel : Nat) :
    Moves (blockFrom b opened acc fuel) :=
  moves_of_parse.2.2.2.2.2.2.2.1 b opened acc fuel

theorem statement_moves (b opened : Nat) : Moves (statement b opened) :=
  moves_of_parse.2.2.2.2.2.2.2.2.1 b opened

theorem program_moves (acc : Array Stmt) (fuel : Nat) : Moves (program acc fuel) := by
  induction fuel generalizing acc with
  | zero => exact Moves.pure _
  | succ fuel ih =>
    rw [program.eq_2]
    refine Moves.bind Moves.get fun p => ?_
    split
    · exact Moves.pure _
    · refine Moves.bind (Moves.tryCatch ?_ fun h => ?_) fun acc' => ?_
      · refine Moves.bind (statement_moves _ _) fun o => ?_
        split <;> exact Moves.pure _
      · split
        · exact Moves.bind Moves.get fun q => Moves.bind (skipGivenUp_moves _ _) fun _ =>
            Moves.pure _
        · exact Moves.pure _
      · refine Moves.bind Moves.get fun q => ?_
        split
        · exact Moves.pure _
        · exact Moves.bind next_moves fun _ => ih _

end Parse

end Monkey
