import Monkey.Proofs.Carets

/-!
# Syntax errors come in source order

Places are ordered as they come in the source: by line, then by column. The scanner reads tokens
at growing places (`Token.scanFrom_sorted`). The parser records an error at the current token or
at the next one, and at the current token only right after moving on, or once the end of input
is reached, so no error is recorded before one recorded earlier. The syntax errors of a failed
parse, as it returns them and as it lists them, stand in source order
(`parse_errors_in_source_order`).

`Parser.InOrder` says that the tokens a parser holds are in order, that its errors are, and that
none of them stands past the next token; `Parser.CaughtUp` that none stands past the current
token either. Moving on catches any ordered parser up (`Parser.InOrder.advance`).
`KeepsOrder pre x post` says that every run of the step `x` from an ordered state satisfying `pre`
ends ordered, and one that returns ends satisfying `post`. `keepsOrder_of_parse` gives each parse
function its conditions, by the induction of `keeps_of_parse`: the functions that may record at the
current token start caught up, the others only ordered, and the statements of a block end caught
up unless they stop on a closing brace.
-/

set_option autoImplicit false
set_option relaxedAutoImplicit false

namespace Monkey

namespace Pos

/-- Places are ordered by line, then by column. -/
instance : LinearOrder Pos :=
  LinearOrder.lift' (fun p => toLex (p.line, p.col)) fun a b same => by
    obtain ⟨la, ca⟩ := a
    obtain ⟨lb, cb⟩ := b
    simpa using same

theorem le_iff {a b : Pos} : a ≤ b ↔ a.line < b.line ∨ a.line = b.line ∧ a.col ≤ b.col :=
  Prod.Lex.toLex_le_toLex

theorem le_advance (p : Pos) (b : UInt8) : p ≤ p.advance b := by
  rw [le_iff]
  unfold advance
  split <;> simp

theorem le_advanceAll (p : Pos) (bs : List UInt8) : p ≤ p.advanceAll bs := by
  induction bs generalizing p with
  | nil => exact le_refl p
  | cons b bs ih => exact (le_advance p b).trans (ih (p.advance b))

theorem origin_le (p : Pos) : (⟨0, 0⟩ : Pos) ≤ p := by
  rw [le_iff]
  dsimp only
  omega

end Pos

namespace Token

theorem scanFrom_sorted (pos : Pos) (bs : List UInt8) :
    (((scanFrom pos bs).1 ++ (scanFrom pos bs).2.toOption.toList).map Token.pos).Pairwise
        (· ≤ ·) ∧
      ∀ t ∈ (scanFrom pos bs).1 ++ (scanFrom pos bs).2.toOption.toList, pos ≤ t.pos := by
  fun_induction scanFrom pos bs with
  | case1 pos bs _ => simp [eofAt, Except.toOption, Pos.le_advanceAll]
  | case2 => simp [Except.toOption]
  | case3 pos bs b rest leading start k lexeme after read_ok _ ts' last' tail ih =>
    rw [tail] at ih
    obtain ⟨sorted, later⟩ := ih
    -- the token read starts past the blanks, and the rest of the scan past its lexeme
    have first : pos ≤ start := Pos.le_advanceAll _ _
    have rest : ∀ t ∈ ts' ++ last'.toOption.toList, start ≤ t.pos :=
      fun t mem => (Pos.le_advanceAll start lexeme).trans (later t mem)
    refine ⟨?_, ?_⟩
    · simp only [List.cons_append, List.map_cons, List.pairwise_cons, List.mem_map]
      refine ⟨?_, sorted⟩
      rintro _ ⟨t, mem, rfl⟩
      exact rest t mem
    · intro t mem
      rcases List.mem_cons.1 mem with rfl | mem
      · exact first
      · exact first.trans (rest t mem)

end Token

namespace Parser

/-- The tokens a parser holds are in order, as are the errors it has recorded, and none of these
stands past the next token. -/
structure InOrder (p : Parser) : Prop where
  drained : p.Drained
  tokens : (p.ahead.map Token.pos).Pairwise (· ≤ ·)
  recorded : (p.errors.toList.map SyntaxError.pos).Pairwise (· ≤ ·)
  behind : ∀ e ∈ p.errors.toList, e.pos ≤ p.peek.pos

/-- No error recorded stands past the current token. -/
def CaughtUp (p : Parser) : Prop := ∀ e ∈ p.errors.toList, e.pos ≤ p.cur.pos

theorem cur_le_peek_of_sorted {p : Parser} (sorted : (p.ahead.map Token.pos).Pairwise (· ≤ ·)) :
    p.cur.pos ≤ p.peek.pos := by
  simp only [Parser.ahead, List.map_cons, List.pairwise_cons, List.mem_cons] at sorted
  exact sorted.1 _ (.inl rfl)

theorem InOrder.cur_le_peek {p : Parser} (ordered : p.InOrder) : p.cur.pos ≤ p.peek.pos :=
  cur_le_peek_of_sorted ordered.tokens

theorem InOrder.advance_ahead {p : Parser} (ordered : p.InOrder) :
    (p.advance.ahead.map Token.pos).Pairwise (· ≤ ·) := by
  have sorted := ordered.tokens
  rcases advance_cases p with ⟨met, step⟩ | ⟨_, t, rest, pending, step⟩ |
      ⟨_, pending, t, ended, step⟩ | ⟨_, pending, e, failed, step⟩ <;>
    rw [step] <;> simp only [Parser.ahead] at sorted ⊢
  · obtain ⟨empty, none⟩ := ordered.drained met
    simp [empty, none, Token.eofAt]
  · rw [pending] at sorted
    exact (List.pairwise_cons.1 sorted).2
  · rw [pending, ended] at sorted
    simp only [Except.toOption, List.nil_append, Option.toList_some, List.map_cons,
      List.map_nil, List.pairwise_cons, List.mem_cons] at sorted ⊢
    grind
  · simp [pending, failed, Except.toOption, Token.eofAt]

theorem InOrder.advance {p : Parser} (ordered : p.InOrder) :
    p.advance.InOrder ∧ p.advance.CaughtUp := by
  have sorted := ordered.advance_ahead
  have caught : p.advance.CaughtUp := by
    intro e mem
    rw [errors_advance] at mem
    rw [cur_advance]
    exact ordered.behind e mem
  exact ⟨⟨ordered.drained.advance, sorted, by simpa using ordered.recorded,
    fun e mem => (caught e mem).trans (cur_le_peek_of_sorted sorted)⟩, caught⟩

theorem InOrder.record {p : Parser} (ordered : p.InOrder) {tok : Token}
    (after : ∀ e ∈ p.errors.toList, e.pos ≤ tok.pos) (before : tok.pos ≤ p.peek.pos)
    (fault : SyntaxFault) : ({ p with errors := p.errors.push ⟨tok, fault⟩ } : Parser).InOrder := by
  refine ⟨ordered.drained, ordered.tokens, ?_, ?_⟩
  · simp only [Array.toList_push, List.map_append, List.map_cons, List.map_nil,
      List.pairwise_append, List.pairwise_singleton, List.mem_singleton, List.mem_map]
    refine ⟨ordered.recorded, trivial, ?_⟩
    rintro _ ⟨e, mem, rfl⟩ _ rfl
    exact after e mem
  · intro e mem
    rw [Array.toList_push, List.mem_append, List.mem_singleton] at mem
    rcases mem with old | rfl
    · exact ordered.behind e old
    · exact before

theorem inOrder_ofScan (src : List UInt8) (limit : Nat) :
    (ofScan (Token.scan src) limit).InOrder ∧ (ofScan (Token.scan src) limit).CaughtUp := by
  obtain ⟨sorted, -⟩ := Token.scanFrom_sorted Pos.start src
  -- before the first move the parser holds two ends of input at the origin, before every place
  have blank : InOrder
      { cur := Token.eofAt ⟨0, 0⟩, peek := Token.eofAt ⟨0, 0⟩, pending := (Token.scan src).1,
        ending := (Token.scan src).2, lexError := none, errors := #[], limit := limit } := by
    refine ⟨fun errored => (nomatch errored), ?_, by simp, by simp⟩
    simp only [ahead, List.map_cons, List.pairwise_cons, List.mem_cons, List.mem_map]
    refine ⟨?_, ?_, sorted⟩
    · rintro _ (rfl | ⟨t, _, rfl⟩) <;> exact Pos.origin_le _
    · rintro _ ⟨t, _, rfl⟩
      exact Pos.origin_le _
  exact (blank.advance.1).advance

end Parser

namespace Parse

open Monkey.Parser

/-- Every run of the step from an ordered state satisfying `pre` ends in an ordered state, and one
that returns ends in a state satisfying `post`. -/
def KeepsOrder {α : Type} (pre : Parser → Prop) (x : ParseM α) (post : α → Parser → Prop) :
    Prop :=
  ∀ p, p.InOrder → pre p →
    (landing (x.run p)).InOrder ∧ ∀ a q, x.run p = .ok a q → post a q

section KeepsOrder

variable {α β : Type} {pre : Parser → Prop} {post : α → Parser → Prop}

theorem KeepsOrder.pure {a : α} (holds : ∀ p, p.InOrder → pre p → post a p) :
    KeepsOrder pre (Pure.pure a : ParseM α) post :=
  fun p ordered ready => ⟨ordered, by rintro _ _ ⟨⟩; exact holds p ordered ready⟩

theorem KeepsOrder.done {a : α} : KeepsOrder pre (Pure.pure a : ParseM α) fun _ _ => True :=
  KeepsOrder.pure fun _ _ _ => trivial

theorem KeepsOrder.throw (h : Halt) : KeepsOrder pre (MonadExcept.throw h : ParseM α) post :=
  fun _ ordered _ => ⟨ordered, by rintro _ _ ⟨⟩⟩

theorem KeepsOrder.bind {x : ParseM α} {k : α → ParseM β} {mid : α → Parser → Prop}
    {after : β → Parser → Prop} (first : KeepsOrder pre x mid)
    (second : ∀ a, KeepsOrder (mid a) (k a) after) : KeepsOrder pre (x >>= k) after := by
  intro p ordered ready
  obtain ⟨landed, returns⟩ := first p ordered ready
  rw [EStateM.run_bind]
  cases run : x.run p with
  | ok a q =>
    rw [run] at landed
    exact second a q landed (returns a q run)
  | error e q =>
    rw [run] at landed
    exact ⟨landed, by rintro _ _ ⟨⟩⟩

theorem KeepsOrder.throw_bind (h : Halt) (k : α → ParseM β) {after : β → Parser → Prop} :
    KeepsOrder pre (MonadExcept.throw h >>= k) after :=
  fun _ ordered _ => ⟨ordered, by rintro _ _ ⟨⟩⟩

theorem KeepsOrder.tryCatch {x : ParseM α} {handler : Halt → ParseM α}
    (body : KeepsOrder pre x post)
    (recovers : ∀ h, KeepsOrder (fun _ => True) (handler h) post) :
    KeepsOrder pre (tryCatch x handler) post := by
  intro p ordered ready
  obtain ⟨landed, returns⟩ := body p ordered ready
  rw [EStateM.run_tryCatch]
  cases run : x.run p with
  | ok a q =>
    rw [run] at landed
    exact ⟨landed, fun a' q' same => returns a' q' (run.trans same)⟩
  | error h q =>
    rw [run] at landed
    exact recovers h q landed trivial

theorem KeepsOrder.weaken {x : ParseM α} {pre' : Parser → Prop} (keeps : KeepsOrder pre x post)
    (stronger : ∀ p, pre' p → pre p) : KeepsOrder pre' x post :=
  fun p ordered ready => keeps p ordered (stronger p ready)

theorem KeepsOrder.relax {x : ParseM α} (keeps : KeepsOrder (fun _ => True) x post) :
    KeepsOrder pre x post :=
  keeps.weaken fun _ _ => trivial

theorem KeepsOrder.get :
    KeepsOrder pre (MonadState.get : ParseM Parser) fun a q => pre q ∧ q = a :=
  fun _ ordered ready => ⟨ordered, by rintro _ _ ⟨⟩; exact ⟨ready, rfl⟩⟩

theorem current_keepsOrder : KeepsOrder pre current fun c q => pre q ∧ q.cur = c :=
  KeepsOrder.bind KeepsOrder.get fun _ =>
    KeepsOrder.pure fun _ _ ready => ⟨ready.1, congrArg Parser.cur ready.2⟩

theorem upcoming_keepsOrder : KeepsOrder pre upcoming fun t q => pre q ∧ q.peek = t :=
  KeepsOrder.bind KeepsOrder.get fun _ =>
    KeepsOrder.pure fun _ _ ready => ⟨ready.1, congrArg Parser.peek ready.2⟩

theorem next_keepsOrder : KeepsOrder pre next fun _ q => q.CaughtUp :=
  fun _ ordered _ => ⟨ordered.advance.1, by rintro _ _ ⟨⟩; exact ordered.advance.2⟩

theorem record_current {c : Token} (fault : SyntaxFault) :
    KeepsOrder (fun q => q.CaughtUp ∧ q.cur = c) (record c fault) fun _ _ => True := by
  rintro q ordered ⟨caught, rfl⟩
  exact ⟨ordered.record caught ordered.cur_le_peek fault, fun _ _ _ => trivial⟩

theorem record_upcoming {t : Token} (fault : SyntaxFault) :
    KeepsOrder (fun q => pre q ∧ q.peek = t) (record t fault) fun _ _ => True := by
  rintro q ordered ⟨-, rfl⟩
  exact ⟨ordered.record ordered.behind (le_refl _) fault, fun _ _ _ => trivial⟩

theorem expectNext_keepsOrder (want : Wanted) :
    KeepsOrder pre (expectNext want) fun _ _ => True := by
  rw [expectNext]
  refine KeepsOrder.bind upcoming_keepsOrder fun t => ?_
  split
  · exact KeepsOrder.bind next_keepsOrder fun _ => KeepsOrder.done
  · exact KeepsOrder.bind (record_upcoming _) fun _ => KeepsOrder.done

theorem skipWhile_keepsOrder (cond : Parser → Bool) (fuel : Nat) :
    KeepsOrder pre (skipWhile cond fuel) fun _ _ => True := by
  induction fuel generalizing pre with
  | zero => exact KeepsOrder.done
  | succ fuel ih =>
    rw [skipWhile]
    refine KeepsOrder.bind KeepsOrder.get fun p => ?_
    split
    · exact KeepsOrder.bind next_keepsOrder fun _ => ih
    · exact KeepsOrder.done

theorem skipAll_keepsOrder (cond : Parser → Bool) :
    KeepsOrder pre (skipAll cond) fun _ _ => True :=
  KeepsOrder.bind KeepsOrder.get fun p => skipWhile_keepsOrder cond p.rounds

theorem skipGivenUp_keepsOrder (opened : Int) (fuel : Nat) :
    KeepsOrder pre (skipGivenUp opened fuel) fun _ _ => True := by
  induction fuel generalizing opened pre with
  | zero => exact KeepsOrder.done
  | succ fuel ih =>
    rw [skipGivenUp.eq_2]
    refine KeepsOrder.bind KeepsOrder.get fun p => ?_
    split
    · exact KeepsOrder.done
    · split
      · exact KeepsOrder.bind next_keepsOrder fun _ => ih _
      · split
        · exact KeepsOrder.done
        · exact KeepsOrder.bind next_keepsOrder fun _ => ih _
      · split
        · exact KeepsOrder.done
        · exact KeepsOrder.bind next_keepsOrder fun _ => ih _
      · exact KeepsOrder.bind next_keepsOrder fun _ => ih _

theorem paramsFrom_keepsOrder (acc : Array String) (fuel : Nat) :
    KeepsOrder CaughtUp (paramsFrom acc fuel) fun _ _ => True := by
  induction fuel generalizing acc with
  | zero => exact KeepsOrder.throw _
  | succ fuel ih =>
    rw [paramsFrom.eq_2]
    refine KeepsOrder.bind current_keepsOrder fun c => ?_
    split
    · refine KeepsOrder.bind upcoming_keepsOrder fun t => ?_
      split
      · exact KeepsOrder.bind next_keepsOrder fun _ =>
          KeepsOrder.bind next_keepsOrder fun _ => ih _
      · split
        · exact KeepsOrder.bind next_keepsOrder fun _ => KeepsOrder.done
        · exact KeepsOrder.bind (record_upcoming _) fun _ => KeepsOrder.throw _
    · exact KeepsOrder.bind (record_current _) fun _ => KeepsOrder.throw _

theorem params_keepsOrder : KeepsOrder pre params fun _ _ => True := by
  rw [params.eq_1]
  refine KeepsOrder.bind upcoming_keepsOrder fun t => ?_
  split
  · exact KeepsOrder.bind next_keepsOrder fun _ => KeepsOrder.done
  · exact KeepsOrder.bind next_keepsOrder fun _ => KeepsOrder.bind KeepsOrder.get fun _ =>
      (paramsFrom_keepsOrder _ _).weaken fun _ ready => ready.1

theorem dropFailed_keepsOrder (h : Halt) :
    KeepsOrder (fun _ => True) (dropFailed h) fun _ _ => True := by
  cases h
  · exact KeepsOrder.done
  · exact KeepsOrder.throw _

end KeepsOrder

/-- Every parse function keeps the parser in order. Those that may record an error at the current
token start caught up, each being entered right after a move; the statements of a block end caught
up when they stop at the end of input, where the block records its missing brace. -/
theorem keepsOrder_of_parse :
    (∀ b opened min, KeepsOrder CaughtUp (expression b opened min) fun _ _ => True) ∧
    (∀ b opened min left fuel,
      KeepsOrder (fun _ => True) (operators b opened min left fuel) fun _ _ => True) ∧
    (∀ b opened callee, KeepsOrder (fun _ => True) (callArgs b opened callee) fun _ _ => True) ∧
    (∀ b opened acc fuel, KeepsOrder CaughtUp (argsFrom b opened acc fuel) fun _ _ => True) ∧
    (∀ b opened, KeepsOrder CaughtUp (operand b opened) fun _ _ => True) ∧
    (∀ b opened, KeepsOrder (fun _ => True) (function b opened) fun _ _ => True) ∧
    (∀ b opened, KeepsOrder (fun _ => True) (block b opened) fun _ _ => True) ∧
    (∀ b opened acc fuel, KeepsOrder CaughtUp (blockFrom b opened acc fuel)
      fun _ q => q.cur.kind = .eof → q.CaughtUp) ∧
    (∀ b opened, KeepsOrder CaughtUp (statement b opened) fun _ _ => True) ∧
    (∀ b opened, KeepsOrder (fun _ => True) (letStatement b opened) fun _ _ => True) ∧
    (∀ b opened, KeepsOrder (fun _ => True) (returnStatement b opened) fun _ _ => True) ∧
    (∀ b opened, KeepsOrder (fun _ => True) (conditional b opened) fun _ _ => True) := by
  refine Parse.expression.mutual_induct
    (fun b opened min => KeepsOrder CaughtUp (expression b opened min) fun _ _ => True)
    (fun b opened min left fuel =>
      KeepsOrder (fun _ => True) (operators b opened min left fuel) fun _ _ => True)
    (fun b opened callee => KeepsOrder (fun _ => True) (callArgs b opened callee) fun _ _ => True)
    (fun b opened acc fuel => KeepsOrder CaughtUp (argsFrom b opened acc fuel) fun _ _ => True)
    (fun b opened => KeepsOrder CaughtUp (operand b opened) fun _ _ => True)
    (fun b opened => KeepsOrder (fun _ => True) (function b opened) fun _ _ => True)
    (fun b opened => KeepsOrder (fun _ => True) (block b opened) fun _ _ => True)
    (fun b opened acc fuel => KeepsOrder CaughtUp (blockFrom b opened acc fuel)
      fun _ q => q.cur.kind = .eof → q.CaughtUp)
    (fun b opened => KeepsOrder CaughtUp (statement b opened) fun _ _ => True)
    (fun b opened => KeepsOrder (fun _ => True) (letStatement b opened) fun _ _ => True)
    (fun b opened => KeepsOrder (fun _ => True) (returnStatement b opened) fun _ _ => True)
    (fun b opened => KeepsOrder (fun _ => True) (conditional b opened) fun _ _ => True)
    ?_ ?_ ?_ ?_ ?_ ?_ ?_ ?_ ?_ ?_ ?_ ?_ ?_ ?_ ?_ ?_
  · intro opened min
    rw [expression.eq_1]
    exact KeepsOrder.bind KeepsOrder.get fun p =>
      KeepsOrder.bind ((record_current _).weaken fun _ ready =>
        ⟨ready.1, congrArg Parser.cur ready.2⟩) fun _ => KeepsOrder.throw _
  · intro b opened min operand operators
    rw [expression.eq_2]
    exact KeepsOrder.bind operand fun left => KeepsOrder.bind KeepsOrder.get fun p =>
      (operators left p).relax
  · intro b opened min left
    rw [operators.eq_1]
    exact KeepsOrder.done
  · intro b opened min left fuel callArgs afterCall right afterBinop
    rw [operators.eq_2]
    refine KeepsOrder.bind upcoming_keepsOrder fun t => ?_
    split
    · exact KeepsOrder.done
    · split
      · exact KeepsOrder.bind next_keepsOrder fun _ =>
          KeepsOrder.bind callArgs.relax fun e => (afterCall e).relax
      · split
        · exact KeepsOrder.bind next_keepsOrder fun _ => KeepsOrder.bind next_keepsOrder fun _ =>
            KeepsOrder.bind (right t) fun r => (afterBinop _ _).relax
        · exact KeepsOrder.done
  · intro b opened callee args
    rw [callArgs.eq_1]
    refine KeepsOrder.bind upcoming_keepsOrder fun t => ?_
    split
    · exact KeepsOrder.bind next_keepsOrder fun _ => KeepsOrder.done
    · refine KeepsOrder.bind next_keepsOrder fun _ => KeepsOrder.bind KeepsOrder.get fun p =>
        KeepsOrder.bind ((args p).weaken fun _ ready => ready.1) fun _ =>
          KeepsOrder.bind (expectNext_keepsOrder _) fun ok => ?_
      split
      · exact KeepsOrder.done
      · exact KeepsOrder.throw _
  · intro b opened acc
    rw [argsFrom.eq_1]
    exact KeepsOrder.done
  · intro b opened acc fuel first more
    rw [argsFrom.eq_2]
    refine KeepsOrder.bind first fun arg => KeepsOrder.bind upcoming_keepsOrder fun t => ?_
    split
    · exact KeepsOrder.bind next_keepsOrder fun _ => KeepsOrder.bind next_keepsOrder fun _ =>
        more arg
    · exact KeepsOrder.done
  · intro b opened unary inner conditional function
    rw [operand.eq_1]
    refine KeepsOrder.bind current_keepsOrder fun c => ?_
    split
    · exact KeepsOrder.done
    · exact KeepsOrder.bind next_keepsOrder fun _ => KeepsOrder.bind unary fun _ =>
        KeepsOrder.done
    · refine KeepsOrder.bind next_keepsOrder fun _ => KeepsOrder.bind inner fun e =>
        KeepsOrder.bind (expectNext_keepsOrder _) fun ok => ?_
      split
      · exact KeepsOrder.done
      · exact KeepsOrder.throw _
    · exact conditional.relax
    · exact function.relax
    · exact KeepsOrder.bind (record_current _) fun _ => KeepsOrder.throw _
  · intro b opened block
    rw [function.eq_1]
    refine KeepsOrder.bind (expectNext_keepsOrder _) fun ok => ?_
    dsimp only
    split
    · refine KeepsOrder.bind params_keepsOrder fun ps =>
        KeepsOrder.bind (expectNext_keepsOrder _) fun ok' => ?_
      split
      · exact KeepsOrder.bind block.relax fun body => KeepsOrder.done
      · exact KeepsOrder.throw_bind _ _
    · exact KeepsOrder.throw_bind _ _
  · intro b opened statements
    rw [block.eq_1]
    refine KeepsOrder.bind next_keepsOrder fun _ => KeepsOrder.bind KeepsOrder.get fun p =>
      KeepsOrder.bind ((statements p).weaken fun _ ready => ready.1) fun ss =>
        KeepsOrder.bind current_keepsOrder fun c => ?_
    dsimp only
    split
    · next atEnd =>
      -- the block stopped at the end of input, so it is caught up and may record there
      have ended : c.kind = .eof := by simpa using atEnd
      refine KeepsOrder.bind ((record_current _).weaken fun _ ready =>
        ⟨ready.1 (by rw [ready.2, ended]), ready.2⟩) fun _ => KeepsOrder.done
    · exact KeepsOrder.done
  · intro b opened acc
    rw [blockFrom.eq_1]
    exact KeepsOrder.pure fun _ _ caught _ => caught
  · intro b opened acc fuel statement more again
    rw [blockFrom.eq_2]
    refine KeepsOrder.bind current_keepsOrder fun c => ?_
    split
    · exact KeepsOrder.pure fun _ _ ready _ => ready.1
    · refine KeepsOrder.bind (statement.weaken fun _ ready => ready.1) fun o => ?_
      split
      · exact KeepsOrder.bind next_keepsOrder fun _ => more _
      · refine KeepsOrder.bind current_keepsOrder fun c' => ?_
        split
        · next closing =>
          -- a block stopping on its closing brace is not at the end of input
          refine KeepsOrder.pure fun q _ ready atEnd => ?_
          rw [ready.2] at atEnd
          simp [atEnd] at closing
        · exact KeepsOrder.bind next_keepsOrder fun _ => again
  · intro b opened returns binds value p ordered caught
    rw [statement_run]
    refine KeepsOrder.tryCatch ?_ dropFailed_keepsOrder p ordered caught
    unfold statementBody
    split
    · exact KeepsOrder.done
    · exact binds.relax
    · exact returns.relax
    · refine KeepsOrder.bind value fun e => KeepsOrder.bind upcoming_keepsOrder fun t => ?_
      split
      · exact KeepsOrder.bind next_keepsOrder fun _ => KeepsOrder.done
      · exact KeepsOrder.done
  · intro b opened value
    rw [letStatement.eq_1]
    refine KeepsOrder.bind (expectNext_keepsOrder _) fun named => ?_
    dsimp only
    split
    · refine KeepsOrder.bind current_keepsOrder fun c =>
        KeepsOrder.bind (expectNext_keepsOrder _) fun assigned => ?_
      split
      · refine KeepsOrder.bind next_keepsOrder fun _ => KeepsOrder.bind value fun e =>
          KeepsOrder.bind upcoming_keepsOrder fun t => ?_
        split
        · exact KeepsOrder.bind next_keepsOrder fun _ => KeepsOrder.done
        · exact KeepsOrder.done
      · exact KeepsOrder.bind (skipAll_keepsOrder _) fun _ => KeepsOrder.done
    · exact KeepsOrder.bind (skipAll_keepsOrder _) fun _ => KeepsOrder.done
  · intro b opened value
    rw [returnStatement.eq_1]
    refine KeepsOrder.bind upcoming_keepsOrder fun t => ?_
    split
    · dsimp only
      split
      · exact KeepsOrder.bind next_keepsOrder fun _ => KeepsOrder.done
      · exact KeepsOrder.done
    · refine KeepsOrder.bind next_keepsOrder fun _ => KeepsOrder.bind value fun e =>
        KeepsOrder.bind (skipAll_keepsOrder _) fun _ =>
          KeepsOrder.bind upcoming_keepsOrder fun t => ?_
      dsimp only
      split
      · exact KeepsOrder.bind next_keepsOrder fun _ => KeepsOrder.done
      · exact KeepsOrder.done
  · intro b opened test block
    rw [conditional.eq_1]
    refine KeepsOrder.bind (expectNext_keepsOrder _) fun ok => ?_
    dsimp only
    split
    · refine KeepsOrder.bind next_keepsOrder fun _ => KeepsOrder.bind test fun cond =>
        KeepsOrder.bind (expectNext_keepsOrder _) fun ok => ?_
      split
      · refine KeepsOrder.bind (expectNext_keepsOrder _) fun ok => ?_
        split
        · refine KeepsOrder.bind block.relax fun t =>
            KeepsOrder.bind upcoming_keepsOrder fun t' => ?_
          split
          · refine KeepsOrder.bind next_keepsOrder fun _ =>
              KeepsOrder.bind (expectNext_keepsOrder _) fun ok => ?_
            split
            · exact KeepsOrder.bind block.relax fun e => KeepsOrder.done
            · exact KeepsOrder.throw_bind _ _
          · exact KeepsOrder.done
        · exact KeepsOrder.throw_bind _ _
      · exact KeepsOrder.throw_bind _ _
    · exact KeepsOrder.throw_bind _ _

theorem statement_keepsOrder (b opened : Nat) :
    KeepsOrder CaughtUp (statement b opened) fun _ _ => True :=
  keepsOrder_of_parse.2.2.2.2.2.2.2.2.1 b opened

theorem program_keepsOrder (acc : Array Stmt) (fuel : Nat) :
    KeepsOrder CaughtUp (program acc fuel) fun _ _ => True := by
  induction fuel generalizing acc with
  | zero => exact KeepsOrder.done
  | succ fuel ih =>
    rw [program.eq_2]
    refine KeepsOrder.bind KeepsOrder.get fun p => ?_
    split
    · exact KeepsOrder.done
    · refine KeepsOrder.bind (KeepsOrder.tryCatch ?_ fun h => ?_ :
          KeepsOrder (fun q => q.CaughtUp ∧ q = p) _ fun _ _ => True) fun acc' => ?_
      · refine KeepsOrder.bind ((statement_keepsOrder _ _).weaken fun _ ready => ready.1)
          fun o => ?_
        split <;> exact KeepsOrder.done
      · split
        · exact KeepsOrder.bind KeepsOrder.get fun _ =>
            KeepsOrder.bind (skipGivenUp_keepsOrder _ _) fun _ => KeepsOrder.done
        · exact KeepsOrder.done
      · refine KeepsOrder.bind KeepsOrder.get fun q => ?_
        split
        · exact KeepsOrder.done
        · exact KeepsOrder.bind next_keepsOrder fun _ => ih _

end Parse

theorem Parser.finish_syntaxErrors {p : Parser} {stmts : List Stmt} {f : ParseFailure}
    (finished : p.finish stmts = .error f) : f.syntaxErrors = p.errors.toList := by
  unfold Parser.finish at finished
  split at finished
  · cases finished
    rfl
  · split at finished
    · cases finished
    · cases finished
      rfl

open Parse in
/-- The syntax errors of a failed parse, whether it fails on them or on a lexical error, stand in
source order: by line, then by column, whatever the nesting limit. -/
theorem parse_errors_in_source_order (limit : Nat) (src : List UInt8) (f : ParseFailure)
    (failed : Program.parseWith limit src = .error f) :
    (f.syntaxErrors.map SyntaxError.pos).SortedLE := by
  obtain ⟨stmts, finished⟩ := parseWith_finish limit src
  obtain ⟨ordered, caught⟩ := Parser.inOrder_ofScan src limit
  have landed :=
    (program_keepsOrder #[] (Parser.ofScan (Token.scan src) limit).rounds _ ordered caught).1
  rw [finished] at failed
  rw [Parser.finish_syntaxErrors failed, List.sortedLE_iff_pairwise]
  exact landed.recorded

/-- Two malformed lets on two lines, `let x 5;` and `let = 10;`, fail with two errors in source
order: at the `5` on line 1, where `=` was wanted, then at the `=` on line 2, where a name was. -/
theorem malformed_lets_errors_in_order :
    Program.parse [108, 101, 116, 32, 120, 32, 53, 59, 10, 108, 101, 116, 32, 61, 32, 49, 48, 59] =
        .error (.syntactic [⟨⟨.int 5, [53], ⟨1, 6⟩⟩, .expected (.token .assign)⟩,
          ⟨⟨.assign, [61], ⟨2, 4⟩⟩, .expected .ident⟩]) ∧
      (ParseFailure.syntaxErrors (.syntactic [⟨⟨.int 5, [53], ⟨1, 6⟩⟩, .expected (.token .assign)⟩,
          ⟨⟨.assign, [61], ⟨2, 4⟩⟩, .expected .ident⟩]) |>.map SyntaxError.pos).SortedLE := by
  have parsed : Program.parse [108, 101, 116, 32, 120, 32, 53, 59, 10, 108, 101, 116, 32, 61, 32,
      49, 48, 59] = .error (.syntactic [⟨⟨.int 5, [53], ⟨1, 6⟩⟩, .expected (.token .assign)⟩,
        ⟨⟨.assign, [61], ⟨2, 4⟩⟩, .expected .ident⟩]) := by
    cbv
  exact ⟨parsed, parse_errors_in_source_order _ _ _ parsed⟩

end Monkey
