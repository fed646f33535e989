import Monkey.Proofs.Grammar
import Monkey.Proofs.ParserState

/-!
# Runs that follow a grammar relation

`Follows x p stop input G` says what the parse step `x` does from the state `p`: every run moves
on and records errors only, a run that records no syntax error returns, and it returns `a` and
stops where `rest` is left exactly when `G` derives `a` from `input` with `rest` after it. The
rules below build such facts along the parser's do-blocks: one step after another
(`Follows.bind`), looking at the state, moving on, expecting a token, recording an error and
catching a halt. With them come the steps outside the mutual recursion: parameter lists, the
optional semicolon after a statement, and passing over what follows a returned value.
-/

set_option autoImplicit false
set_option relaxedAutoImplicit false

namespace Monkey

namespace Parse

open Monkey.Parser Monkey.Grammar

/-- The run of `x` from `q` ends with at most `n` errors, whether it returns or halts. -/
def Within {α : Type} (n : Nat) (x : ParseM α) (q : Parser) : Prop :=
  (landing (x.run q)).errors.size ≤ n

/-- From `p`, the step reads `input` as `G` says. A run that records no error returns, and it
returns `a` and stops where `rest` is left exactly when `G input a rest`; `stop` gives what is left
at the state a run ends in. Every run moves on and records errors only. -/
structure Follows {α : Type} (x : ParseM α) (p : Parser) (stop : Parser → List Token.Kind)
    (input : List Token.Kind) (G : List Token.Kind → α → List Token.Kind → Prop) : Prop where
  reach : Reach p (landing (x.run p))
  sound : Within p.errors.size x p → ∃ a q, x.run p = .ok a q ∧ G input a (stop q)
  complete : ∀ a rest, G input a rest →
    ∃ q, x.run p = .ok a q ∧ q.errors = p.errors ∧ stop q = rest

section Runs

variable {α β : Type} {stop stop' : Parser → List Token.Kind} {input : List Token.Kind}
  {G : List Token.Kind → α → List Token.Kind → Prop}

theorem Follows.reach_ok {x : ParseM α} {p q : Parser} {a : α} (follows : Follows x p stop input G)
    (run : x.run p = .ok a q) : Reach p q := by
  simpa [run, landing] using follows.reach

theorem Follows.reach_error {x : ParseM α} {p q : Parser} {h : Halt}
    (follows : Follows x p stop input G) (run : x.run p = .error h q) : Reach p q := by
  simpa [run, landing] using follows.reach

theorem run_bind_ok {x : ParseM α} {k : α → ParseM β} {p q : Parser} {a : α}
    (run : x.run p = .ok a q) : (x >>= k).run p = (k a).run q := by
  rw [EStateM.run_bind, run]

theorem Within.bind_ok {n : Nat} {x : ParseM α} {k : α → ParseM β} {p q : Parser} {a : α}
    (within : Within n (x >>= k) p) (run : x.run p = .ok a q) : Within n (k a) q := by
  unfold Within at within ⊢
  rwa [run_bind_ok run] at within

theorem Follows.of_run {x y : ParseM α} {p q : Parser} (run : x.run p = y.run q)
    (reach : Reach p q) (errors : q.errors = p.errors) (follows : Follows y q stop input G) :
    Follows x p stop input G where
  reach := run ▸ reach.trans follows.reach
  sound within := by
    unfold Within at within
    rw [run, ← errors] at within
    obtain ⟨a, r, run', derives⟩ := follows.sound within
    exact ⟨a, r, run.trans run', derives⟩
  complete a rest derives := by
    obtain ⟨r, run', clean, left⟩ := follows.complete a rest derives
    exact ⟨r, run.trans run', clean.trans errors, left⟩

theorem Follows.of_ok {x : ParseM α} {p q : Parser} {a : α} (run : x.run p = .ok a q)
    (reach : Reach p q) (errors : q.errors = p.errors)
    (only : ∀ b rest, G input b rest ↔ b = a ∧ rest = stop q) : Follows x p stop input G where
  reach := by rw [run]; exact reach
  sound _ := ⟨a, q, run, (only a _).2 ⟨rfl, rfl⟩⟩
  complete b rest derives := by
    obtain ⟨rfl, rfl⟩ := (only b rest).1 derives
    exact ⟨q, run, errors, rfl⟩

theorem Follows.of_fails {x : ParseM α} {p : Parser} (reach : Reach p (landing (x.run p)))
    (fails : p.errors.size < (landing (x.run p)).errors.size)
    (none : ∀ a rest, ¬ G input a rest) : Follows x p stop input G where
  reach := reach
  sound within := absurd within (Nat.not_le_of_lt fails)
  complete a rest derives := absurd derives (none a rest)

theorem Follows.bind_of_clean {x : ParseM α} {k : α → ParseM β} {p : Parser}
    {H : α → List Token.Kind → β → List Token.Kind → Prop} (first : Follows x p stop input G)
    (moves : ∀ a q, x.run p = .ok a q → Reach p q → Reach q (landing ((k a).run q)))
    (second : ∀ a q, x.run p = .ok a q → Reach p q → q.errors = p.errors → G input a (stop q) →
      Follows (k a) q stop' (stop q) (H a)) :
    Follows (x >>= k) p stop' input (fun ts b rest => ∃ a mid, G ts a mid ∧ H a mid b rest) where
  reach := by
    cases run : x.run p with
    | ok a q =>
      rw [run_bind_ok run]
      exact (first.reach_ok run).trans (moves a q run (first.reach_ok run))
    | error h q =>
      rw [EStateM.run_bind, run]
      exact first.reach_error run
  sound within := by
    cases run : x.run p with
    | ok a q =>
      have reach := first.reach_ok run
      -- the second step only adds errors, so a clean end means the first run was clean too
      have within' := within.bind_ok run
      have clean : q.errors.size ≤ p.errors.size := (moves a q run reach).within within'
      obtain ⟨a', q', run', derives⟩ := first.sound (by simpa [Within, run, landing] using clean)
      rw [run] at run'
      cases run'
      have same := reach.errors_eq clean
      rw [← same] at within'
      obtain ⟨b, r, runk, derivesk⟩ := (second a q run reach same derives).sound within'
      exact ⟨b, r, (run_bind_ok run).trans runk, a, stop q, derives, derivesk⟩
    | error h q =>
      have halted : Within p.errors.size x p := by
        simpa [Within, EStateM.run_bind, run, landing] using within
      obtain ⟨a, q', run', -⟩ := first.sound halted
      rw [run] at run'
      cases run'
  complete b rest := by
    rintro ⟨a, mid, derives, derivesk⟩
    obtain ⟨q, run, clean, left⟩ := first.complete a mid derives
    have reach := first.reach_ok run
    obtain ⟨r, runk, cleank, leftk⟩ :=
      (second a q run reach clean (left ▸ derives)).complete b rest (left ▸ derivesk)
    exact ⟨r, (run_bind_ok run).trans runk, cleank.trans clean, leftk⟩

theorem Follows.bind {x : ParseM α} {k : α → ParseM β} {p : Parser}
    {H : α → List Token.Kind → β → List Token.Kind → Prop} (first : Follows x p stop input G)
    (second : ∀ a q, x.run p = .ok a q → Reach p q → Follows (k a) q stop' (stop q) (H a)) :
    Follows (x >>= k) p stop' input (fun ts b rest => ∃ a mid, G ts a mid ∧ H a mid b rest) := by
  exact first.bind_of_clean (fun a q run _ => (second a q run (first.reach_ok run)).reach)
    fun a q run reach _ _ => second a q run reach

theorem Follows.congr {x : ParseM α} {p : Parser} {input' : List Token.Kind}
    {G' : List Token.Kind → α → List Token.Kind → Prop}
    (follows : Follows x p stop input G) (same : ∀ a rest, G input a rest ↔ G' input' a rest) :
    Follows x p stop input' G' where
  reach := follows.reach
  sound within := by
    obtain ⟨a, q, run, derives⟩ := follows.sound within
    exact ⟨a, q, run, (same a _).1 derives⟩
  complete a rest derives := follows.complete a rest ((same a rest).2 derives)

theorem Follows.catching {x : ParseM α} {handler : Halt → ParseM α} {p : Parser}
    (follows : Follows x p stop input G) (recovers : ∀ h, Moves (handler h)) :
    Follows (tryCatch x handler) p stop input G where
  reach := by
    rw [EStateM.run_tryCatch]
    cases run : x.run p with
    | ok a q => exact follows.reach_ok run
    | error h q =>
      have reach := follows.reach_error run
      exact reach.trans (recovers h q reach.valid)
  sound within := by
    cases run : x.run p with
    | ok a q =>
      obtain ⟨a', q', run', derives⟩ := follows.sound (by simpa [Within, run, landing] using
        (show Within p.errors.size (tryCatch x handler) p from within))
      exact ⟨a', q', by rw [EStateM.run_tryCatch, run'], derives⟩
    | error h q =>
      -- a run that halts records an error first, and the handler only adds to it
      exfalso
      have reach := follows.reach_error run
      have handled := (recovers h q reach.valid).size_le
      unfold Within at within
      rw [EStateM.run_tryCatch, run] at within
      obtain ⟨a, q', run', -⟩ := follows.sound (by
        simp only [Within, run, landing]
        exact handled.trans within)
      rw [run] at run'
      cases run'
  complete a rest derives := by
    obtain ⟨q, run, clean, left⟩ := follows.complete a rest derives
    exact ⟨q, by rw [EStateM.run_tryCatch, run], clean, left⟩

@[simp] theorem next_run (p : Parser) : next.run p = .ok () p.advance := rfl

@[simp] theorem current_run (p : Parser) : current.run p = .ok p.cur p := rfl

@[simp] theorem upcoming_run (p : Parser) : upcoming.run p = .ok p.peek p := rfl

@[simp] theorem get_run (p : Parser) : (MonadState.get : ParseM Parser).run p = .ok p p := rfl

theorem record_fails {k : Unit → ParseM β} {p : Parser} (tok : Token) (fault : SyntaxFault)
    (valid : p.Valid) (after : Moves (k ())) :
    Reach p (landing ((record tok fault >>= k).run p)) ∧
      p.errors.size < (landing ((record tok fault >>= k).run p)).errors.size := by
  let q : Parser := { p with errors := p.errors.push ⟨tok, fault⟩ }
  have run : (record tok fault).run p = .ok () q := rfl
  have recorded : Reach p q := by simpa [run, landing] using record_moves tok fault p valid
  rw [run_bind_ok run]
  have rest := after q recorded.valid
  refine ⟨recorded.trans rest, ?_⟩
  have grows := rest.size_le
  have pushed : q.errors.size = p.errors.size + 1 := by simp [q]
  omega

theorem Follows.of_record {x : ParseM α} {k : Unit → ParseM α} {p : Parser} {tok : Token}
    {fault : SyntaxFault} (valid : p.Valid) (run : x.run p = (record tok fault >>= k).run p)
    (after : Moves (k ())) (none : ∀ a rest, ¬ G input a rest) : Follows x p stop input G := by
  obtain ⟨reach, fails⟩ := record_fails tok fault valid after
  rw [← run] at reach fails
  exact Follows.of_fails reach fails none

theorem Follows.pure {a : α} {q : Parser} (valid : q.Valid) :
    Follows (Pure.pure a : ParseM α) q stop (stop q) (fun ts b rest => b = a ∧ rest = ts) :=
  Follows.of_ok rfl (Reach.refl valid) rfl fun _ _ => Iff.rfl

theorem Follows.look_bind {x : ParseM β} {k : β → ParseM α} {p : Parser} {a : β}
    (valid : p.Valid) (looks : x.run p = .ok a p) (follows : Follows (k a) p stop input G) :
    Follows (x >>= k) p stop input G :=
  Follows.of_run (run_bind_ok looks) (Reach.refl valid) rfl follows

theorem Follows.current_bind {k : Token → ParseM α} {p : Parser} (valid : p.Valid)
    (follows : Follows (k p.cur) p stop input G) : Follows (current >>= k) p stop input G :=
  Follows.look_bind valid (current_run p) follows

theorem Follows.upcoming_bind {k : Token → ParseM α} {p : Parser} (valid : p.Valid)
    (follows : Follows (k p.peek) p stop input G) : Follows (upcoming >>= k) p stop input G :=
  Follows.look_bind valid (upcoming_run p) follows

theorem Follows.get_bind {k : Parser → ParseM α} {p : Parser} (valid : p.Valid)
    (follows : Follows (k p) p stop input G) :
    Follows ((MonadState.get : ParseM Parser) >>= k) p stop input G :=
  Follows.look_bind valid (get_run p) follows

theorem Follows.next_bind {k : Unit → ParseM α} {p : Parser} (valid : p.Valid)
    (follows : Follows (k ()) p.advance stop input G) : Follows (next >>= k) p stop input G :=
  Follows.of_run (run_bind_ok (next_run p)) (Reach.advance valid) (errors_advance p) follows

theorem Follows.of_input {x : ParseM α} {p : Parser} {input' : List Token.Kind}
    (same : input = input') (follows : Follows x p stop input G) : Follows x p stop input' G :=
  same ▸ follows

theorem Follows.expectNext_bind {want : Wanted} {after : Bool → ParseM α} {p : Parser}
    (valid : p.Valid) (fails : Moves (after false))
    (accepted : want.accepts p.peek.kind = true → Follows (after true) p.advance stop input G)
    (rejected : want.accepts p.peek.kind = false → ∀ a rest, ¬ G input a rest) :
    Follows (expectNext want >>= after) p stop input G := by
  cases wanted : want.accepts p.peek.kind
  · have run : (expectNext want >>= after).run p =
        (expected want p.peek >>= fun _ => after false).run p := by
      simp [expectNext, wanted, EStateM.run_bind]
    exact Follows.of_record valid run fails (rejected wanted)
  · have run : (expectNext want >>= after).run p = (after true).run p.advance := by
      simp [expectNext, wanted, EStateM.run_bind]
    exact Follows.of_run run (Reach.advance valid) (errors_advance p) (accepted wanted)

theorem Follows.expect_bind {k : Token.Kind} {after : Bool → ParseM α} {p : Parser}
    {H : List Token.Kind → α → List Token.Kind → Prop} (valid : p.Valid) (real : k ≠ .eof)
    (fails : Moves (after false))
    (accepted : p.rest = k :: p.advance.rest → Follows (after true) p.advance stop p.advance.rest H) :
    Follows (expectNext (.token k) >>= after) p stop p.rest
      (fun ts a rest => ∃ ts', ts = k :: ts' ∧ H ts' a rest) := by
  refine Follows.expectNext_bind valid fails (fun wanted => ?_) fun unwanted a rest derives => ?_
  · have same : p.peek.kind = k := (beq_iff_eq.1 wanted).symm
    obtain ⟨ts, rest⟩ := valid.rest_of_peek same real
    have moved : p.advance.rest = ts := by
      rw [← (view_cons (valid.step rest).2).2]
    refine ((accepted (by rw [rest, moved])).congr fun a rest' => ?_).of_input rfl
    rw [rest, moved]
    simp
  · obtain ⟨ts, first, -⟩ := derives
    have same : p.peek.kind = k := by rw [valid.peek_kind, first]; rfl
    simp [Wanted.accepts, same] at unwanted

end Runs

section Params

theorem paramsFrom_follows (fuel : Nat) (acc : Array String) (p : Parser) (valid : p.Valid)
    (enough : p.left ≤ fuel) (pos : 0 < fuel) :
    Follows (paramsFrom acc fuel) p rest p.view
      (fun ts names rest => ∃ more, names = acc.toList ++ more ∧ Names ts more rest) := by
  -- on the fuel, which the names and commas left never outrun
  induction fuel generalizing acc p with
  | zero => omega
  | succ fuel ih =>
    by_cases named : ∃ name, p.cur.kind = .ident name
    · obtain ⟨name, named⟩ := named
      have real : p.cur.kind ≠ .eof := by rw [named]; exact Token.Kind.noConfusion
      obtain ⟨ts, after⟩ := valid.rest_eq_peek real
      have view : p.view = .ident name :: p.peek.kind :: ts := by rw [view_eq_cons, named, after]
      by_cases comma : p.peek.kind = .comma
      · -- after a comma the list goes on from the token after it
        have first := valid.step after
        have moved : p.advance.cur.kind ≠ .eof := by rw [cur_advance, comma]; decide
        have second : p.advance.advance.view = ts := by
          rw [valid.advance.view_advance moved, (view_cons first.2).2]
        have shorter : p.advance.advance.left + 2 = p.left := by
          have := valid.left_advance real
          have := valid.advance.left_advance moved
          omega
        have run : (paramsFrom acc (fuel + 1)).run p =
            (paramsFrom (acc.push name) fuel).run p.advance.advance := by
          rw [paramsFrom.eq_2]
          simp [EStateM.run_bind, named, comma]
        have reach := (Reach.advance valid).trans (Reach.advance valid.advance)
        refine (Follows.of_run run reach (by simp)
          (ih _ _ reach.valid (by omega) (by omega))).congr fun names rest => ?_
        rw [second, view, comma]
        constructor
        · rintro ⟨more, rfl, list⟩
          exact ⟨name :: more, by simp, names_iff.2 (.inr ⟨rfl, more, rfl, list⟩)⟩
        · rintro ⟨more, rfl, list⟩
          rcases names_iff.1 list with ⟨close, -⟩ | ⟨-, more', rfl, tail⟩
          · cases close
          · exact ⟨more', by simp, tail⟩
      · by_cases close : p.peek.kind = .rparen
        · -- a closing parenthesis ends the list
          have run : (paramsFrom acc (fuel + 1)).run p = .ok (acc.push name).toList p.advance := by
            rw [paramsFrom.eq_2]
            simp [EStateM.run_bind, named, close]
          refine Follows.of_ok run (Reach.advance valid) (by simp) fun names rest => ?_
          rw [view, close]
          have left : p.advance.rest = ts := by
            rw [← (view_cons (valid.step after).2).2]
          rw [left]
          constructor
          · rintro ⟨more, rfl, list⟩
            rcases names_iff.1 list with ⟨-, rfl, rfl⟩ | ⟨comma', -⟩
            · simp
            · cases comma'
          · rintro ⟨rfl, rfl⟩
            exact ⟨[name], by simp, .last⟩
        · -- anything else is an error
          have run : (paramsFrom acc (fuel + 1)).run p =
              (expected (.token .rparen) p.peek >>= fun _ => fail).run p := by
            rw [paramsFrom.eq_2]
            simp [EStateM.run_bind, named, comma, close]
          refine Follows.of_record valid run (Moves.throw _) fun names rest derives => ?_
          obtain ⟨more, -, list⟩ := derives
          rw [view] at list
          rcases names_iff.1 list with ⟨same, -⟩ | ⟨same, -⟩
          · exact close same
          · exact comma same
    · -- a list that does not start with a name is an error
      have run : (paramsFrom acc (fuel + 1)).run p =
          (expected .ident p.cur >>= fun _ => fail).run p := by
        rw [paramsFrom.eq_2]
        simp only [EStateM.run_bind, current_run]
        split
        · next name same => exact absurd ⟨name, same⟩ named
        · rfl
      refine Follows.of_record valid run (Moves.throw _) fun names rest derives => ?_
      obtain ⟨more, -, list⟩ := derives
      obtain ⟨name, ts', same⟩ := list.opens
      rw [view_eq_cons] at same
      exact named ⟨name, (List.cons.inj same).1⟩

theorem params_follows (p : Parser) (valid : p.Valid) (real : p.cur.kind ≠ .eof) :
    Follows params p rest p.rest Params := by
  rw [params]
  refine Follows.upcoming_bind valid ?_
  split
  · next close =>
    obtain ⟨ts, after⟩ := valid.rest_of_peek (beq_iff_eq.1 close) (by decide)
    obtain ⟨-, -, moved, -⟩ := valid.advance_of_rest after
    refine Follows.next_bind valid ((Follows.pure valid.advance).congr fun names rest => ?_)
    rw [after, moved, params_close_iff]
  · next open_ =>
    have notClose := valid.head_rest fun same => open_ (beq_iff_eq.2 same)
    refine Follows.next_bind valid (Follows.get_bind valid.advance
      ((paramsFrom_follows _ #[] _ valid.advance (left_le_rounds _) (Nat.succ_pos _)).congr
        fun names rest => ?_))
    rw [valid.view_advance real, params_open_iff notClose]
    constructor
    · rintro ⟨more, same, list⟩
      obtain rfl : names = more := by simpa using same
      exact list
    · exact fun list => ⟨names, by simp, list⟩

end Params

section Statements

variable {α : Type}

theorem semicolon_follows {a : α} {q : Parser} (valid : q.Valid) :
    Follows ((do
        if q.peek.kind == .semicolon then next
        pure a) : ParseM α) q rest q.rest
      (fun ts b rest => b = a ∧ rest = dropSemicolon ts) := by
  split
  · next semi =>
    obtain ⟨ts, after⟩ := valid.rest_of_peek (beq_iff_eq.1 semi) (by decide)
    obtain ⟨-, -, moved, -⟩ := valid.advance_of_rest after
    refine Follows.next_bind valid ((Follows.pure valid.advance).congr fun b rest => ?_)
    rw [after, moved]
    rfl
  · next other =>
    refine (Follows.pure valid).congr fun b rest => ?_
    rw [dropSemicolon_of_head (valid.head_rest fun same => other (beq_iff_eq.2 same))]

theorem skipWhile_follows (fuel : Nat) (q : Parser) (valid : q.Valid) (enough : q.left ≤ fuel) :
    Follows (skipWhile (fun p => p.peek.kind != .semicolon && p.peek.kind != .rbrace &&
      p.peek.kind != .eof) fuel) q rest q.rest
      (fun ts _ rest => rest = ts.dropWhile fun k => !endsReturn k) := by
  -- each round passes over one token, and the fuel covers all those left
  induction fuel generalizing q with
  | zero =>
    rw [skipWhile.eq_1]
    have ended : q.rest = [] := List.eq_nil_of_length_eq_zero (Nat.le_zero.1 enough)
    refine Follows.of_ok rfl (Reach.refl valid) rfl fun u rest => ?_
    rw [ended]
    simp
  | succ fuel ih =>
    rw [skipWhile.eq_2]
    refine Follows.get_bind valid ?_
    split
    · next goesOn =>
      -- a token that does not end the statement is passed over
      obtain ⟨ts, after⟩ := valid.rest_of_peek rfl fun ended => by simp [ended] at goesOn
      obtain ⟨-, -, moved, shorter⟩ := valid.advance_of_rest after
      refine Follows.next_bind valid ((ih _ valid.advance (by omega)).congr fun u rest => ?_)
      rw [after, moved, List.dropWhile_cons_of_pos (by simpa [endsReturn] using goesOn)]
    · next stops =>
      refine Follows.of_ok rfl (Reach.refl valid) rfl fun u rest => ?_
      rcases valid.rest_cases with ended | ⟨ts, after⟩
      · simp [ended]
      · rw [after, List.dropWhile_cons_of_neg (by simpa [endsReturn] using stops)]
        simp

theorem skipAll_follows (q : Parser) (valid : q.Valid) :
    Follows (skipAll fun p => p.peek.kind != .semicolon && p.peek.kind != .rbrace &&
      p.peek.kind != .eof) q rest q.rest
      (fun ts _ rest => rest = ts.dropWhile fun k => !endsReturn k) := by
  rw [skipAll]
  exact Follows.get_bind valid (skipWhile_follows _ q valid (left_le_rounds q))

end Statements

end Parse

end Monkey
