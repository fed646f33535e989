import Monkey.Proofs.Unbounded

/-!
# Parsing ends

The parser with unbounded loops (`Unbounded`) stops on every source, and with the outcome of the
bounded one (`parse_terminates`).

The two are compared step by step: `Parse.Agrees p x y` says that, run from `p`, the parse step
`x` lands where the end of input still comes last and no farther from it, and that `y`, given
enough unfoldings, ends exactly as `x` does. The combinators of the first section put such
facts together along the monad; the bounded loops are then shown to agree with the unbounded
ones whenever their rounds cover the moves left to the end of input, which is what each loop
is given on entry. Every round of every loop moves on at least once, or stops, so the moves
left fall by one a round; a loop whose rounds run out has the end of input as its current
token, where it stops as it would with one round more.
-/

set_option autoImplicit false
set_option relaxedAutoImplicit false

namespace Monkey

namespace Parse

open Monkey.Parser

/-- How a run of a parse step ends, as an unbounded run reports it. -/
def outcome {α : Type} : EStateM.Result Halt Parser α → Except Halt α × Parser
  | .ok a q => (.ok a, q)
  | .error h q => (.error h, q)

/-- Run from `p`, the parse step `x` lands where the end of input still comes last and no farther
from it, and the unbounded step `y`, given enough unfoldings, ends exactly as `x` does. -/
structure Agrees {α : Type} (p : Parser) (x : ParseM α) (y : Nat → UnboundedM α) : Prop where
  endsLast : (landing (x.run p)).EndsLast
  nearer : (landing (x.run p)).toEnd ≤ p.toEnd
  ends : ∃ n, ∀ fuel, n ≤ fuel → (y fuel).run.run p = some (outcome (x.run p))

/-- The two steps agree from every state whose end of input comes last. -/
def Tracks {α : Type} (x : ParseM α) (y : Nat → UnboundedM α) : Prop :=
  ∀ p, p.EndsLast → Agrees p x y

section Agrees

variable {α β : Type} {p : Parser}

theorem Agrees.of_run {x x' : ParseM α} {y : Nat → UnboundedM α} (same : x.run p = x'.run p)
    (agrees : Agrees p x' y) : Agrees p x y := by
  obtain ⟨endsLast, nearer, ends⟩ := agrees
  exact ⟨same ▸ endsLast, same ▸ nearer, same ▸ ends⟩

theorem Agrees.lift {x : ParseM α} (endsLast : (landing (x.run p)).EndsLast)
    (nearer : (landing (x.run p)).toEnd ≤ p.toEnd) : Agrees p x (fun _ => Unbounded.lift x) := by
  refine ⟨endsLast, nearer, 0, fun _ _ => ?_⟩
  cases run : x.run p <;> simp only [Unbounded.lift, ExceptT.run_mk, StateT.run, run, outcome]

theorem Agrees.pure (ends : p.EndsLast) (a : α) :
    Agrees p (Pure.pure a : ParseM α) (fun _ => Pure.pure a) :=
  ⟨ends, le_refl _, 0, fun _ _ => rfl⟩

theorem Agrees.throw (ends : p.EndsLast) (h : Halt) :
    Agrees p (MonadExcept.throw h : ParseM α) (fun _ => MonadExcept.throw h) :=
  ⟨ends, le_refl _, 0, fun _ _ => rfl⟩

theorem Agrees.bind {x : ParseM α} {y : Nat → UnboundedM α} {k : α → ParseM β}
    {l : Nat → α → UnboundedM β} (first : Agrees p x y)
    (rest : ∀ a q, x.run p = .ok a q → q.EndsLast → q.toEnd ≤ p.toEnd →
      Agrees q (k a) (fun fuel => l fuel a)) :
    Agrees p (x >>= k) (fun fuel => y fuel >>= l fuel) := by
  obtain ⟨endsLast, nearer, n, ends⟩ := first
  cases run : x.run p with
  | ok a q =>
    rw [run] at endsLast nearer ends
    obtain ⟨endsLast', nearer', n', ends'⟩ := rest a q run endsLast nearer
    refine ⟨?_, ?_, max n n', fun fuel enough => ?_⟩
    · rwa [run_bind_ok run]
    · rw [run_bind_ok run]
      exact nearer'.trans nearer
    · rw [run_bind_ok run, ExceptT.run_bind, StateT.run_bind,
        ends fuel (le_of_max_le_left enough)]
      exact ends' fuel (le_of_max_le_right enough)
  | error h q =>
    rw [run] at endsLast nearer ends
    refine ⟨?_, ?_, n, fun fuel enough => ?_⟩
    · rwa [run_bind_error run]
    · rwa [run_bind_error run]
    · rw [run_bind_error run, ExceptT.run_bind, StateT.run_bind, ends fuel enough]
      rfl

theorem Agrees.get_bind {k : Parser → ParseM β} {l : Nat → Parser → UnboundedM β}
    (rest : Agrees p (k p) (fun fuel => l fuel p)) :
    Agrees p (MonadState.get >>= k) (fun fuel => MonadState.get >>= l fuel) :=
  ⟨rest.endsLast, rest.nearer, rest.ends⟩

theorem Agrees.reads {k : Parser → ParseM β} {y : Nat → UnboundedM β} (rest : Agrees p (k p) y) :
    Agrees p (MonadState.get >>= k) y :=
  Agrees.of_run (show (MonadState.get >>= k).run p = (k p).run p from rfl) rest

theorem Agrees.unfold {x : ParseM α} {y z : Nat → UnboundedM α}
    (step : ∀ fuel, y (fuel + 1) = z fuel) (body : Agrees p x z) : Agrees p x y := by
  obtain ⟨endsLast, nearer, n, ends⟩ := body
  refine ⟨endsLast, nearer, n + 1, fun fuel enough => ?_⟩
  obtain ⟨fuel, rfl⟩ : ∃ f, fuel = f + 1 := ⟨fuel - 1, by omega⟩
  rw [step]
  exact ends fuel (by omega)

theorem Agrees.ite {c : Prop} [Decidable c] {x x' : ParseM α} {y y' : Nat → UnboundedM α}
    (pos : c → Agrees p x y) (neg : ¬c → Agrees p x' y') :
    Agrees p (if c then x else x') (fun fuel => if c then y fuel else y' fuel) := by
  by_cases holds : c
  · simpa only [if_pos holds] using pos holds
  · simpa only [if_neg holds] using neg holds

theorem Agrees.tryCatch {x : ParseM α} {y : Nat → UnboundedM α} {handle : Halt → ParseM α}
    {handle' : Nat → Halt → UnboundedM α} (body : Agrees p x y)
    (handled : ∀ h q, x.run p = .error h q → q.EndsLast → q.toEnd ≤ p.toEnd →
      Agrees q (handle h) (fun fuel => handle' fuel h)) :
    Agrees p (tryCatch x handle) (fun fuel => tryCatch (y fuel) (handle' fuel)) := by
  obtain ⟨endsLast, nearer, n, ends⟩ := body
  cases run : x.run p with
  | ok a q =>
    rw [run] at endsLast nearer ends
    refine ⟨?_, ?_, n, fun fuel enough => ?_⟩
    · rwa [EStateM.run_tryCatch, run]
    · rwa [EStateM.run_tryCatch, run]
    · rw [EStateM.run_tryCatch, run]
      show (y fuel).run.run p >>= _ = _
      rw [ends fuel enough]
      rfl
  | error h q =>
    rw [run] at endsLast nearer ends
    obtain ⟨endsLast', nearer', n', ends'⟩ := handled h q run endsLast nearer
    refine ⟨?_, ?_, max n n', fun fuel enough => ?_⟩
    · rwa [EStateM.run_tryCatch, run]
    · rw [EStateM.run_tryCatch, run]
      exact nearer'.trans nearer
    · rw [EStateM.run_tryCatch, run]
      show (y fuel).run.run p >>= _ = _
      rw [ends fuel (le_of_max_le_left enough)]
      exact ends' fuel (le_of_max_le_right enough)

end Agrees

/-! ## The steps between the loops -/

section Steps

variable {p : Parser}

theorem next_agrees (ends : p.EndsLast) : Agrees p next (fun _ => Unbounded.lift next) :=
  Agrees.lift ends.advance (by show p.advance.toEnd ≤ _; rw [ends.toEnd_advance]; omega)

theorem current_agrees (ends : p.EndsLast) : Agrees p current (fun _ => Unbounded.lift current) :=
  Agrees.lift ends (le_refl _)

theorem upcoming_agrees (ends : p.EndsLast) :
    Agrees p upcoming (fun _ => Unbounded.lift upcoming) :=
  Agrees.lift ends (le_refl _)

theorem record_agrees (ends : p.EndsLast) (tok : Token) (fault : SyntaxFault) :
    Agrees p (record tok fault) (fun _ => Unbounded.lift (record tok fault)) :=
  Agrees.lift (ends.record _) (le_refl _)

theorem expected_agrees (ends : p.EndsLast) (want : Wanted) (got : Token) :
    Agrees p (expected want got) (fun _ => Unbounded.lift (expected want got)) :=
  record_agrees ends got _

theorem fail_agrees {α : Type} (ends : p.EndsLast) :
    Agrees p (fail : ParseM α) (fun _ => Unbounded.lift fail) :=
  Agrees.lift ends (le_refl _)

theorem Agrees.next_bind {β : Type} {k : Unit → ParseM β} {l : Nat → Unit → UnboundedM β}
    (ends : p.EndsLast) (rest : Agrees p.advance (k ()) (fun fuel => l fuel ())) :
    Agrees p (next >>= k) (fun fuel => Unbounded.lift next >>= l fuel) :=
  Agrees.bind (next_agrees ends) fun _ _ run _ _ => by
    cases run
    exact rest

theorem Agrees.current_bind {β : Type} {k : Token → ParseM β} {l : Nat → Token → UnboundedM β}
    (ends : p.EndsLast) (rest : Agrees p (k p.cur) (fun fuel => l fuel p.cur)) :
    Agrees p (current >>= k) (fun fuel => Unbounded.lift current >>= l fuel) :=
  Agrees.bind (current_agrees ends) fun _ _ run _ _ => by
    cases run
    exact rest

theorem Agrees.upcoming_bind {β : Type} {k : Token → ParseM β} {l : Nat → Token → UnboundedM β}
    (ends : p.EndsLast) (rest : Agrees p (k p.peek) (fun fuel => l fuel p.peek)) :
    Agrees p (upcoming >>= k) (fun fuel => Unbounded.lift upcoming >>= l fuel) :=
  Agrees.bind (upcoming_agrees ends) fun _ _ run _ _ => by
    cases run
    exact rest

theorem expected_fail_agrees {α : Type} (ends : p.EndsLast) (want : Wanted) (got : Token) :
    Agrees p (expected want got >>= fun _ => (fail : ParseM α))
      (fun _ => Unbounded.lift (expected want got) >>= fun _ => Unbounded.lift fail) :=
  Agrees.bind (expected_agrees ends want got) fun _ _ _ recorded _ => fail_agrees recorded

theorem expectNext_agrees (ends : p.EndsLast) (want : Wanted) :
    Agrees p (expectNext want) (fun _ => Unbounded.lift (expectNext want)) := by
  cases accepts : want.accepts p.peek.kind
  · have run : (expectNext want).run p =
        .ok false { p with errors := p.errors.push ⟨p.peek, .expected want⟩ } := by
      simp [expectNext, accepts, expected, record, EStateM.run_bind]
    exact Agrees.lift (by rw [run]; exact ends.record _) (by rw [run]; exact le_refl _)
  · have run : (expectNext want).run p = .ok true p.advance := by
      simp [expectNext, accepts, EStateM.run_bind]
    exact Agrees.lift (by rw [run]; exact ends.advance)
      (by rw [run]; show p.advance.toEnd ≤ _; rw [ends.toEnd_advance]; omega)

theorem dropFailed_agrees (ends : p.EndsLast) (h : Halt) :
    Agrees p (dropFailed h) (fun _ => Unbounded.lift (dropFailed h)) := by
  cases h
  · exact Agrees.lift ends (le_refl _)
  · exact Agrees.lift ends (le_refl _)

theorem fail_bind_agrees {α β : Type} {k : α → ParseM β} {l : Nat → α → UnboundedM β}
    (ends : p.EndsLast) : Agrees p (fail >>= k) (fun fuel => Unbounded.lift fail >>= l fuel) :=
  Agrees.bind (fail_agrees ends) fun _ _ run => nomatch run

theorem endSemicolon_agrees {α : Type} (ends : p.EndsLast) (a : α) :
    Agrees p
      (do
        if (← upcoming).kind == .semicolon then next
        return a)
      (fun _ => do
        if (← Unbounded.lift upcoming).kind == .semicolon then Unbounded.lift next
        return a) :=
  Agrees.bind (upcoming_agrees ends) fun _ _ _ seen _ =>
    Agrees.ite (fun _ => Agrees.next_bind seen (Agrees.pure seen.advance a)) fun _ =>
      Agrees.pure seen a

theorem Agrees.expect_bind {β : Type} {k : ParseM β} {l : Nat → UnboundedM β}
    (ends : p.EndsLast) (want : Wanted)
    (rest : ∀ q, q.EndsLast → q.toEnd ≤ p.toEnd → Agrees q k l) :
    Agrees p
      (do
        unless ← expectNext want do fail
        k)
      (fun fuel => do
        unless ← Unbounded.lift (expectNext want) do Unbounded.lift fail
        l fuel) :=
  Agrees.bind (expectNext_agrees ends want) fun _ q _ seen nearer =>
    Agrees.ite (fun _ => rest q seen nearer) fun _ => fail_bind_agrees seen

theorem Agrees.expect_pure {α : Type} (ends : p.EndsLast) (want : Wanted) (a : α) :
    Agrees p (do if ← expectNext want then return a else fail)
      (fun _ => do if ← Unbounded.lift (expectNext want) then return a else Unbounded.lift fail) :=
  Agrees.bind (expectNext_agrees ends want) fun _ _ _ seen _ =>
    Agrees.ite (fun _ => Agrees.pure seen a) fun _ => fail_agrees seen

end Steps

/-! ## The skips -/

theorem skipWhile_agrees (cond : Parser → Bool) (ahead : ∀ p, cond p = true → p.peek.kind ≠ .eof) :
    ∀ (fuel : Nat) (p : Parser), p.EndsLast → p.toEnd ≤ fuel →
      Agrees p (skipWhile cond fuel) (fun n => Unbounded.skipWhile cond n) := by
  intro fuel
  induction fuel with
  | zero =>
    intro p ends bound
    have stop : cond p = false := by
      cases holds : cond p
      · rfl
      · exact absurd (ends.curEnd (toEnd_eq_zero.1 (by omega))) (ahead p holds)
    -- with no round left the skip stops, as it does with one
    refine Agrees.of_run
      (show (skipWhile cond 0).run p = (skipWhile cond 1).run p by simp [skipWhile, stop]) ?_
    refine Agrees.unfold (fun fuel => rfl) ?_
    rw [skipWhile.eq_2]
    refine Agrees.get_bind (Agrees.ite (fun go => absurd go (by simp [stop])) fun _ => ?_)
    exact Agrees.pure ends ()
  | succ fuel ih =>
    intro p ends bound
    refine Agrees.unfold (fun fuel => rfl) ?_
    rw [skipWhile.eq_2]
    refine Agrees.get_bind (Agrees.ite (fun _ => ?_) fun _ => Agrees.pure ends ())
    refine Agrees.next_bind ends ?_
    exact ih _ ends.advance (by rw [ends.toEnd_advance]; omega)

theorem skipAll_agrees (cond : Parser → Bool) (ahead : ∀ p, cond p = true → p.peek.kind ≠ .eof) :
    Tracks (skipAll cond) (fun n => Unbounded.skipWhile cond n) := fun p ends =>
  Agrees.of_run (show (skipAll cond).run p = (skipWhile cond p.rounds).run p from rfl)
    (skipWhile_agrees cond ahead p.rounds p ends (toEnd_le_rounds p))

theorem skipToStatementEnd_agrees :
    Tracks skipToStatementEnd (fun n => Unbounded.skipToStatementEnd n) :=
  skipAll_agrees _ fun q go => by simp_all

theorem skipReturnTail_agrees :
    Tracks (skipAll fun p => p.peek.kind != .semicolon && p.peek.kind != .rbrace &&
      p.peek.kind != .eof) (fun n => Unbounded.skipReturnTail n) :=
  skipAll_agrees _ fun q go => by simp_all

theorem skipGivenUp_agrees : ∀ (fuel : Nat) (opened : Int) (p : Parser), p.EndsLast →
    p.toEnd ≤ fuel → Agrees p (skipGivenUp opened fuel) (fun n => Unbounded.skipGivenUp opened n) := by
  intro fuel
  induction fuel with
  | zero =>
    intro opened p ends bound
    have atEnd : p.cur.kind = .eof := toEnd_eq_zero.1 (by omega)
    refine Agrees.of_run (show (skipGivenUp opened 0).run p = (skipGivenUp opened 1).run p by
      rw [skipGivenUp_at_end opened 1 atEnd]; rfl) ?_
    refine Agrees.unfold (fun fuel => rfl) ?_
    rw [skipGivenUp.eq_2]
    exact Agrees.get_bind (Agrees.ite (fun _ => Agrees.pure ends ()) fun going =>
      absurd (by simp [atEnd]) going)
  | succ fuel ih =>
    intro opened p ends bound
    have more : ∀ opened', Agrees p (next >>= fun _ => skipGivenUp opened' fuel)
        (fun n => Unbounded.lift next >>= fun _ => Unbounded.skipGivenUp opened' n) :=
      fun opened' => Agrees.next_bind ends
        (ih opened' _ ends.advance (by rw [ends.toEnd_advance]; omega))
    refine Agrees.unfold (fun fuel => rfl) ?_
    rw [skipGivenUp.eq_2]
    refine Agrees.get_bind (Agrees.ite (fun _ => Agrees.pure ends ()) fun _ => ?_)
    -- the three kinds that steer the skip, and the rest that it passes over alike
    generalize p.cur.kind = k
    cases k
    case lbrace => exact more (opened + 1)
    case rbrace => exact Agrees.ite (fun _ => Agrees.pure ends ()) fun _ => more (opened - 1)
    case semicolon => exact Agrees.ite (fun _ => Agrees.pure ends ()) fun _ => more opened
    all_goals exact more opened

theorem paramsFrom_agrees : ∀ (fuel : Nat) (acc : Array String) (p : Parser), p.EndsLast →
    0 < fuel → p.toEnd ≤ fuel →
      Agrees p (paramsFrom acc fuel) (fun n => Unbounded.paramsFrom acc n) := by
  intro fuel
  induction fuel with
  | zero => intro acc p ends started; omega
  | succ fuel ih =>
    intro acc p ends _ bound
    refine Agrees.unfold (fun fuel => rfl) ?_
    rw [paramsFrom.eq_2]
    refine Agrees.current_bind ends ?_
    generalize p.cur.kind = k
    cases k
    case ident name =>
      refine Agrees.upcoming_bind ends ?_
      refine Agrees.ite (fun comma => ?_) fun _ => Agrees.ite (fun _ => ?_) fun _ => ?_
      · have two := ends.two_le_toEnd fun eof => by simp [eof] at comma
        refine Agrees.next_bind ends ?_
        refine Agrees.next_bind ends.advance ?_
        exact ih _ _ ends.advance.advance (by omega)
          (by rw [ends.advance.toEnd_advance, ends.toEnd_advance]; omega)
      · exact Agrees.next_bind ends (Agrees.pure ends.advance _)
      · exact expected_fail_agrees ends _ _
    all_goals exact expected_fail_agrees ends _ _

theorem params_agrees : Tracks params (fun n => Unbounded.params n) := by
  intro p ends
  refine Agrees.upcoming_bind ends ?_
  refine Agrees.ite (fun _ => Agrees.next_bind ends (Agrees.pure ends.advance _)) fun _ => ?_
  refine Agrees.next_bind ends ?_
  exact Agrees.reads (paramsFrom_agrees _ _ _ ends.advance (by simp [rounds]) (toEnd_le_rounds _))

/-! ## The parser -/

theorem operators_at_end (b opened min : Nat) (left : Expr) (fuel : Nat) {p : Parser}
    (ended : p.peek.kind = .eof) : (operators b opened min left fuel).run p = .ok left p := by
  cases fuel with
  | zero => rw [operators.eq_1]; rfl
  | succ fuel =>
    rw [operators.eq_2, run_bind_ok (upcoming_run p)]
    simp [ended, Token.Kind.precedence]

theorem blockFrom_at_end (b opened : Nat) (acc : Array Stmt) (fuel : Nat) {p : Parser}
    (ended : p.cur.kind = .eof) : (blockFrom b opened acc fuel).run p = .ok acc.toList p := by
  cases fuel with
  | zero => rw [blockFrom.eq_1]; rfl
  | succ fuel =>
    rw [blockFrom.eq_2, run_bind_ok (current_run p)]
    simp [ended]

/-- Every parse function agrees with its unbounded counterpart from every state whose end of input
comes last. A loop needs as many rounds as there are moves left; the argument list needs one
more, since with no round left it stops before reading an argument, where the unbounded one
would read it. -/
theorem tracks_of_parse :
    (∀ b opened min,
      Tracks (expression b opened min) (fun n => Unbounded.expression n b opened min)) ∧
    (∀ b opened min left fuel p, p.EndsLast → p.toEnd ≤ fuel →
      Agrees p (operators b opened min left fuel)
        (fun n => Unbounded.operators n b opened min left)) ∧
    (∀ b opened callee,
      Tracks (callArgs b opened callee) (fun n => Unbounded.callArgs n b opened callee)) ∧
    (∀ b opened acc fuel p, p.EndsLast → 0 < fuel → p.toEnd ≤ fuel →
      Agrees p (argsFrom b opened acc fuel) (fun n => Unbounded.argsFrom n b opened acc)) ∧
    (∀ b opened, Tracks (operand b opened) (fun n => Unbounded.operand n b opened)) ∧
    (∀ b opened, Tracks (function b opened) (fun n => Unbounded.function n b opened)) ∧
    (∀ b opened, Tracks (block b opened) (fun n => Unbounded.block n b opened)) ∧
    (∀ b opened acc fuel p, p.EndsLast → p.toEnd ≤ fuel →
      Agrees p (blockFrom b opened acc fuel) (fun n => Unbounded.blockFrom n b opened acc)) ∧
    (∀ b opened, Tracks (statement b opened) (fun n => Unbounded.statement n b opened)) ∧
    (∀ b opened, Tracks (letStatement b opened) (fun n => Unbounded.letStatement n b opened)) ∧
    (∀ b opened,
      Tracks (returnStatement b opened) (fun n => Unbounded.returnStatement n b opened)) ∧
    (∀ b opened, Tracks (conditional b opened) (fun n => Unbounded.conditional n b opened)) := by
  refine Parse.expression.mutual_induct
    (fun b opened min =>
      Tracks (expression b opened min) (fun n => Unbounded.expression n b opened min))
    (fun b opened min left fuel => ∀ p, p.EndsLast → p.toEnd ≤ fuel →
      Agrees p (operators b opened min left fuel)
        (fun n => Unbounded.operators n b opened min left))
    (fun b opened callee =>
      Tracks (callArgs b opened callee) (fun n => Unbounded.callArgs n b opened callee))
    (fun b opened acc fuel => ∀ p, p.EndsLast → 0 < fuel → p.toEnd ≤ fuel →
      Agrees p (argsFrom b opened acc fuel) (fun n => Unbounded.argsFrom n b opened acc))
    (fun b opened => Tracks (operand b opened) (fun n => Unbounded.operand n b opened))
    (fun b opened => Tracks (function b opened) (fun n => Unbounded.function n b opened))
    (fun b opened => Tracks (block b opened) (fun n => Unbounded.block n b opened))
    (fun b opened acc fuel => ∀ p, p.EndsLast → p.toEnd ≤ fuel →
      Agrees p (blockFrom b opened acc fuel) (fun n => Unbounded.blockFrom n b opened acc))
    (fun b opened => Tracks (statement b opened) (fun n => Unbounded.statement n b opened))
    (fun b opened => Tracks (letStatement b opened) (fun n => Unbounded.letStatement n b opened))
    (fun b opened =>
      Tracks (returnStatement b opened) (fun n => Unbounded.returnStatement n b opened))
    (fun b opened => Tracks (conditional b opened) (fun n => Unbounded.conditional n b opened))
    ?_ ?_ ?_ ?_ ?_ ?_ ?_ ?_ ?_ ?_ ?_ ?_ ?_ ?_ ?_ ?_
  · intro opened min p ends
    refine Agrees.unfold (fun fuel => rfl) ?_
    rw [expression.eq_1]
    exact Agrees.get_bind (Agrees.bind (record_agrees ends _ _) fun _ _ _ recorded _ =>
      Agrees.throw recorded _)
  · intro b opened min operand operators p ends
    refine Agrees.unfold (fun fuel => rfl) ?_
    rw [expression.eq_2]
    exact Agrees.bind (operand p ends) fun left q _ landed _ =>
      Agrees.reads (operators left q q landed (toEnd_le_rounds q))
  · intro b opened min left p ends bound
    -- no move is left, so the end of input is in view and the operators stop as with a round
    have ended : p.peek.kind = .eof := ends.curEnd (toEnd_eq_zero.1 (by omega))
    refine Agrees.of_run (show (operators b opened min left 0).run p =
        (operators b opened min left 1).run p by
      rw [operators_at_end _ _ _ _ 0 ended, operators_at_end _ _ _ _ 1 ended]) ?_
    refine Agrees.unfold (fun fuel => rfl) ?_
    rw [operators.eq_2]
    refine Agrees.upcoming_bind ends ?_
    exact Agrees.ite (fun _ => Agrees.pure ends _) fun going =>
      absurd (by simp [ended, Token.Kind.precedence]) going
  · intro b opened min left fuel callArgs afterCall right afterBinop p ends bound
    refine Agrees.unfold (fun fuel => rfl) ?_
    rw [operators.eq_2]
    refine Agrees.upcoming_bind ends ?_
    refine Agrees.ite (fun _ => Agrees.pure ends _) fun going => ?_
    -- an operator follows, so the end of input is at least two moves away
    have two := ends.two_le_toEnd fun eof => going (by simp [eof, Token.Kind.precedence])
    refine Agrees.ite (fun _ => ?_) fun _ => ?_
    · refine Agrees.next_bind ends ?_
      refine Agrees.bind (callArgs p.advance ends.advance) fun e q _ landed nearer => ?_
      exact afterCall e q landed (by rw [ends.toEnd_advance] at nearer; omega)
    · generalize p.peek.kind.binOp? = found
      cases found with
      | none => exact Agrees.pure ends _
      | some op =>
        refine Agrees.next_bind ends ?_
        refine Agrees.next_bind ends.advance ?_
        refine Agrees.bind (right p.peek p.advance.advance ends.advance.advance)
          fun r q _ landed nearer => ?_
        exact afterBinop op r q landed
          (by rw [ends.advance.toEnd_advance, ends.toEnd_advance] at nearer; omega)
  · intro b opened callee args p ends
    refine Agrees.unfold (fun fuel => rfl) ?_
    rw [callArgs.eq_1]
    refine Agrees.upcoming_bind ends ?_
    refine Agrees.ite (fun _ => Agrees.next_bind ends (Agrees.pure ends.advance _)) fun _ => ?_
    refine Agrees.next_bind ends (Agrees.reads ?_)
    exact Agrees.bind (args _ _ ends.advance (by simp [rounds]) (toEnd_le_rounds _))
      fun _ _ _ landed _ => Agrees.expect_pure landed _ _
  · intro b opened acc p _ started
    omega
  · intro b opened acc fuel first more p ends _ bound
    refine Agrees.unfold (fun fuel => rfl) ?_
    rw [argsFrom.eq_2]
    refine Agrees.bind (first p ends) fun arg q _ landed nearer => ?_
    refine Agrees.upcoming_bind landed ?_
    refine Agrees.ite (fun comma => ?_) fun _ => Agrees.pure landed _
    -- a comma follows, so the end of input is at least two moves away
    have two := landed.two_le_toEnd fun eof => by simp [eof] at comma
    refine Agrees.next_bind landed ?_
    refine Agrees.next_bind landed.advance ?_
    exact more arg _ landed.advance.advance (by omega)
      (by rw [landed.advance.toEnd_advance, landed.toEnd_advance]; omega)
  · intro b opened unary inner conditional function p ends
    refine Agrees.unfold (fun fuel => rfl) ?_
    rw [operand.eq_1]
    refine Agrees.current_bind ends ?_
    generalize p.cur.kind.lead = lead
    cases lead with
    | leaf e => exact Agrees.pure ends e
    | prefixed op =>
      exact Agrees.next_bind ends
        (Agrees.bind (unary _ ends.advance) fun _ _ _ landed _ => Agrees.pure landed _)
    | group =>
      exact Agrees.next_bind ends
        (Agrees.bind (inner _ ends.advance) fun _ _ _ landed _ => Agrees.expect_pure landed _ _)
    | cond => exact conditional p ends
    | func => exact function p ends
    | none => exact expected_fail_agrees ends _ _
  · intro b opened block p ends
    refine Agrees.unfold (fun fuel => rfl) ?_
    rw [function.eq_1]
    refine Agrees.expect_bind ends _ fun q seen _ => ?_
    refine Agrees.bind (params_agrees q seen) fun _ q _ listed _ => ?_
    refine Agrees.expect_bind listed _ fun q braced _ => ?_
    exact Agrees.bind (block q braced) fun _ _ _ landed _ => Agrees.pure landed _
  · intro b opened statements p ends
    refine Agrees.unfold (fun fuel => rfl) ?_
    rw [block.eq_1]
    refine Agrees.next_bind ends (Agrees.reads ?_)
    refine Agrees.bind (statements _ _ ends.advance (toEnd_le_rounds _)) fun _ _ _ landed _ => ?_
    refine Agrees.current_bind landed ?_
    exact Agrees.ite (fun _ => Agrees.bind (expected_agrees landed _ _) fun _ _ _ recorded _ =>
      Agrees.pure recorded _) fun _ => Agrees.pure landed _
  · intro b opened acc p ends bound
    -- no move is left, so the current token is the end of input and the block stops
    have ended : p.cur.kind = .eof := toEnd_eq_zero.1 (by omega)
    refine Agrees.of_run (show (blockFrom b opened acc 0).run p =
        (blockFrom b opened acc 1).run p by
      rw [blockFrom_at_end _ _ _ 0 ended, blockFrom_at_end _ _ _ 1 ended]) ?_
    refine Agrees.unfold (fun fuel => rfl) ?_
    rw [blockFrom.eq_2]
    refine Agrees.current_bind ends ?_
    exact Agrees.ite (fun _ => Agrees.pure ends _) fun going => absurd (by simp [ended]) going
  · intro b opened acc fuel statement more same p ends bound
    refine Agrees.unfold (fun fuel => rfl) ?_
    rw [blockFrom.eq_2]
    refine Agrees.current_bind ends ?_
    refine Agrees.ite (fun _ => Agrees.pure ends _) fun _ => ?_
    refine Agrees.bind (statement p ends) fun found q _ landed nearer => ?_
    -- each round ends by moving on, which brings the end of input one move nearer
    cases found with
    | some s =>
      refine Agrees.next_bind landed ?_
      exact more s q.advance landed.advance (by rw [landed.toEnd_advance]; omega)
    | none =>
      refine Agrees.current_bind landed ?_
      refine Agrees.ite (fun _ => Agrees.pure landed _) fun _ => ?_
      refine Agrees.next_bind landed ?_
      exact same q.advance landed.advance (by rw [landed.toEnd_advance]; omega)
  · intro b opened returns binds value p ends
    refine Agrees.of_run (show (statement b opened).run p =
        (current >>= fun c => tryCatch (statementBody b opened c.kind) dropFailed).run p by
      rw [statement_run]; rfl) ?_
    refine Agrees.unfold (fun fuel => rfl) ?_
    refine Agrees.current_bind ends ?_
    refine Agrees.tryCatch ?_ fun h _ _ landed _ => dropFailed_agrees landed h
    -- the three kinds that start their own statements, and the expressions
    generalize p.cur.kind = k
    cases k
    case semicolon => exact Agrees.unfold (fun fuel => rfl) (Agrees.pure ends none)
    case kwLet => exact Agrees.unfold (fun fuel => rfl) (binds p ends)
    case kwReturn => exact Agrees.unfold (fun fuel => rfl) (returns p ends)
    all_goals
      exact Agrees.unfold (fun fuel => rfl)
        (Agrees.bind (value p ends) fun _ _ _ landed _ => endSemicolon_agrees landed _)
  · intro b opened value p ends
    refine Agrees.unfold (fun fuel => rfl) ?_
    rw [letStatement.eq_1]
    refine Agrees.bind (expectNext_agrees ends _) fun _ q _ named _ => ?_
    refine Agrees.ite (fun _ => ?_) fun _ =>
      Agrees.bind (skipToStatementEnd_agrees q named) fun _ _ _ skipped _ => Agrees.pure skipped _
    refine Agrees.current_bind named ?_
    refine Agrees.bind (expectNext_agrees named _) fun _ q _ assigned _ => ?_
    refine Agrees.ite (fun _ => ?_) fun _ =>
      Agrees.bind (skipToStatementEnd_agrees q assigned) fun _ _ _ skipped _ =>
        Agrees.pure skipped _
    refine Agrees.next_bind assigned ?_
    exact Agrees.bind (value _ assigned.advance) fun _ _ _ landed _ => endSemicolon_agrees landed _
  · intro b opened value p ends
    refine Agrees.unfold (fun fuel => rfl) ?_
    rw [returnStatement.eq_1]
    refine Agrees.upcoming_bind ends ?_
    refine Agrees.ite (fun _ => ?_) fun _ => ?_
    · exact Agrees.ite (fun _ => Agrees.next_bind ends (Agrees.pure ends.advance _)) fun _ =>
        Agrees.pure ends _
    · refine Agrees.next_bind ends ?_
      refine Agrees.bind (value _ ends.advance) fun _ q _ landed _ => ?_
      exact Agrees.bind (skipReturnTail_agrees q landed) fun _ _ _ skipped _ =>
        endSemicolon_agrees skipped _
  · intro b opened test block p ends
    refine Agrees.unfold (fun fuel => rfl) ?_
    rw [conditional.eq_1]
    refine Agrees.expect_bind ends _ fun q opening _ => ?_
    refine Agrees.next_bind opening ?_
    refine Agrees.bind (test _ opening.advance) fun _ q _ tested _ => ?_
    refine Agrees.expect_bind tested _ fun q closed _ => ?_
    refine Agrees.expect_bind closed _ fun q braced _ => ?_
    refine Agrees.bind (block q braced) fun _ q _ landed _ => ?_
    -- an else part, when a keyword for it follows
    refine Agrees.upcoming_bind landed ?_
    refine Agrees.ite (fun _ => ?_) fun _ => Agrees.pure landed _
    refine Agrees.next_bind landed ?_
    refine Agrees.expect_bind landed.advance _ fun q braced' _ => ?_
    exact Agrees.bind (block q braced') fun _ _ _ landed' _ => Agrees.pure landed' _

theorem statement_agrees (b opened : Nat) :
    Tracks (statement b opened) (fun n => Unbounded.statement n b opened) :=
  tracks_of_parse.2.2.2.2.2.2.2.2.1 b opened

theorem program_agrees : ∀ (fuel : Nat) (acc : Array Stmt) (p : Parser), p.EndsLast →
    p.toEnd ≤ fuel → Agrees p (program acc fuel) (fun n => Unbounded.program acc n) := by
  intro fuel
  induction fuel with
  | zero =>
    intro acc p ends bound
    have ended : p.cur.kind = .eof := toEnd_eq_zero.1 (by omega)
    refine Agrees.of_run (show (program acc 0).run p = (program acc 1).run p by
      rw [program_at_end _ 0 ended, program_at_end _ 1 ended]) ?_
    refine Agrees.unfold (fun fuel => rfl) ?_
    rw [program.eq_2]
    exact Agrees.get_bind (Agrees.ite (fun _ => Agrees.pure ends _) fun going =>
      absurd (by simp [ended]) going)
  | succ fuel ih =>
    intro acc p ends bound
    refine Agrees.unfold (fun fuel => rfl) ?_
    rw [program.eq_2]
    refine Agrees.get_bind (Agrees.ite (fun _ => Agrees.pure ends _) fun _ => ?_)
    -- the statement, the skip past it when it was given up whole, then the move past its end
    refine Agrees.bind (Agrees.tryCatch
      (Agrees.bind (statement_agrees p.limit 0 p ends) fun found _ _ landed _ => ?_)
      fun h q _ landed _ => ?_) fun acc' q _ landed nearer => ?_
    · cases found
      · exact Agrees.pure landed _
      · exact Agrees.pure landed _
    · cases h with
      | failed => exact Agrees.pure landed _
      | abandoned opened =>
        exact Agrees.reads (Agrees.bind (skipGivenUp_agrees _ opened q landed (toEnd_le_rounds q))
          fun _ _ _ skipped _ => Agrees.pure skipped _)
    · refine Agrees.get_bind (Agrees.ite (fun _ => Agrees.pure landed _) fun _ => ?_)
      refine Agrees.next_bind landed ?_
      exact ih acc' q.advance landed.advance (by rw [landed.toEnd_advance]; omega)

end Parse

/-- Parsing ends on every source, whatever the nesting limit: run with loops and recursion that go
on until their own conditions stop them, the parser stops, once given enough unfoldings, with
the outcome of the bounded parser. -/
theorem parse_terminates (limit : Nat) (src : List UInt8) :
    ∃ n, ∀ fuel, n ≤ fuel →
      Unbounded.parseWith fuel limit src = some (Program.parseWith limit src) := by
  obtain ⟨_, _, n, agrees⟩ :=
    Parse.program_agrees _ #[] _ (Parser.endsLast_ofScan src limit) (Parser.toEnd_le_rounds _)
  refine ⟨n, fun fuel enough => ?_⟩
  unfold Unbounded.parseWith Program.parseWith
  dsimp only
  rw [agrees fuel enough]
  cases (Parse.program #[] _).run _ <;> rfl

end Monkey
