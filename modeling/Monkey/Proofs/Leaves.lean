import Monkey.Proofs.Printing
import Monkey.Proofs.Follows

/-!
# Parsed trees print as tokens that scan back

The scanner reads an identifier only as a run of letters that no keyword spells, and an integer
only as a run of digits, so each name it reads is a name in the sense of `Token.isName` and each
literal is non-negative (`Token.Longest.scannable`). The parser builds its trees from the kinds of
these tokens and from kinds of its own, so every tree it returns prints as tokens that the
scanner reads back (`parseWith_scannable`), which is what printing a parsed program back asks
(`scan_render`).

`Parser.Scannable` says this of the tokens a parser has in view and still to read. `Keeps I x good`
says of a parse step that every run of it from a state satisfying `I` ends in one, and that what it
returns satisfies `good`. `keeps_of_parse` shows it of every parse function, by the same induction
as `moves_of_parse`, for every property `I` that moving on and recording an error keep and that
holds only where the tokens scan back (`Tracked`): `Parser.Scannable` itself, and stronger ones
such as the errors having grown past a given list.
-/

set_option autoImplicit false
set_option relaxedAutoImplicit false

namespace Monkey

namespace Token

theorem letterChar {b : UInt8} (letter : isLetter b) :
    ((Char.ofNat b.toNat).isAlpha || Char.ofNat b.toNat == '_') = true := by
  have range : ((97 ≤ b.toNat ∧ b.toNat ≤ 122) ∨ (65 ≤ b.toNat ∧ b.toNat ≤ 90)) ∨
      b.toNat = 95 := by
    simp only [isLetter, Bool.or_eq_true, Bool.and_eq_true, decide_eq_true_eq,
      UInt8.le_iff_toNat_le, ← UInt8.toNat_inj] at letter
    simpa using letter
  have code := toNat_ofNat_byte b
  simp only [Char.isAlpha, Char.isUpper, Char.isLower, Bool.or_eq_true, Bool.and_eq_true,
    decide_eq_true_eq, beq_iff_eq, UInt32.le_iff_toNat_le, ← Char.toNat_inj]
  simp only [Char.toNat_val] at code ⊢
  have : 'a'.toNat = 97 := rfl
  have : 'z'.toNat = 122 := rfl
  have : 'A'.toNat = 65 := rfl
  have : 'Z'.toNat = 90 := rfl
  have : '_'.toNat = 95 := rfl
  omega

theorem Longest.scannable {k : Kind} {lexeme after : List UInt8}
    (longest : Longest k lexeme after) :
    k.scannable := by
  cases longest with
  | @ident name w after nonempty letters stops unreserved named =>
    simp only [Kind.scannable, isName, Bool.and_eq_true, Bool.not_eq_eq_eq_not, Bool.not_true,
      List.isEmpty_eq_false_iff, List.all_eq_true, beq_iff_eq]
    refine ⟨⟨?_, ?_⟩, ?_⟩
    · simpa [named, spelling] using nonempty
    · rw [named]
      intro c mem
      simp only [spelling, List.mem_map] at mem
      obtain ⟨b, letter, rfl⟩ := mem
      exact letterChar (letters b letter)
    · rcases ofWord_cases name with ⟨keyword, spelt⟩ | ⟨isIdent, -⟩
      · exact absurd (by rw [spelt, named]) (unreserved _ keyword)
      · exact isIdent
  | int _ _ _ value => simp [Kind.scannable, value]
  | delimiter delimiter => revert delimiter; cases k <;> simp [Kind.scannable, Kind.isDelimiter]
  | keyword _ _ _ keyword => revert keyword; cases k <;> simp [Kind.scannable, Kind.isKeyword]
  | _ => rfl

theorem scanFrom_scannable (pos : Pos) (bs : List UInt8) :
    (∀ t ∈ (scanFrom pos bs).1, t.kind.scannable) ∧
      ∀ t, (scanFrom pos bs).2 = .ok t → t.kind.scannable := by
  fun_induction scanFrom pos bs with
  | case1 => simp [eofAt, Kind.scannable]
  | case2 => simp
  | case3 pos bs b rest leading start k lexeme after read_ok _ ts' last' tail ih =>
    have notBlank : isBlank b = false := by
      simpa using head?_dropWhile_stops isBlank bs b (by rw [leading]; rfl)
    rw [tail] at ih
    refine ⟨fun t mem => ?_, ih.2⟩
    rcases List.mem_cons.1 mem with rfl | mem
    · exact (read_longest notBlank read_ok).2.scannable
    · exact ih.1 t mem

end Token

/-! ## Trees whose tokens scan back -/

/-- Whether every token of an expression's printed text scans back from its spelling. -/
def Expr.scannable (e : Expr) : Bool := e.kinds.all Token.Kind.scannable

/-- Whether every token of a statement's printed text scans back from its spelling. -/
def Stmt.scannable (s : Stmt) : Bool := s.kinds.all Token.Kind.scannable

@[simp] theorem UnOp.scannable_kind (op : UnOp) : op.kind.scannable := by
  cases op <;> rfl

@[simp] theorem BinOp.scannable_kind (op : BinOp) : op.kind.scannable := by
  cases op <;> rfl

theorem argKinds_all : (args : List Expr) →
    (argKinds args).all Token.Kind.scannable = args.all Expr.scannable
  | [] => rfl
  | [a] => by simp [argKinds, Expr.scannable]
  | a :: b :: rest => by
    simp [argKinds, argKinds_all (b :: rest), Expr.scannable, Token.Kind.scannable]

theorem stmtsKinds_all : (ss : List Stmt) →
    (stmtsKinds ss).all Token.Kind.scannable = ss.all Stmt.scannable
  | [] => rfl
  | s :: ss => by simp [stmtsKinds, stmtsKinds_all ss, Stmt.scannable]

theorem paramKinds_all : (params : List String) →
    (paramKinds params).all Token.Kind.scannable = params.all Token.isName
  | [] => rfl
  | [p] => by simp [paramKinds, Token.Kind.scannable]
  | p :: q :: params => by
    simp [paramKinds, paramKinds_all (q :: params), Token.Kind.scannable]

section Trees

variable (name : String) (v : Int32) (b : Bool) (op : UnOp) (bop : BinOp)
  (arg l r test callee value : Expr) (t : List Stmt) (els : Option (List Stmt))
  (params : List String) (args : List Expr) (ret : Option Expr)

/-! A tree's tokens scan back exactly when its names are names and its literals are not
negative: the other tokens of its text are of fixed kinds. -/

@[simp] theorem Expr.scannable_ident : (Expr.ident name).scannable = Token.isName name := by
  simp [Expr.scannable, Expr.kinds, Token.Kind.scannable]

@[simp] theorem Expr.scannable_int : (Expr.int v).scannable = decide (0 ≤ v.toInt) := by
  simp [Expr.scannable, Expr.kinds, Token.Kind.scannable]

@[simp] theorem Expr.scannable_bool : (Expr.bool b).scannable := by
  cases b <;> rfl

@[simp] theorem Expr.scannable_unop : (Expr.unop op arg).scannable = arg.scannable := by
  cases op <;> simp [Expr.scannable, Expr.kinds, Token.Kind.scannable, UnOp.kind]

@[simp] theorem Expr.scannable_binop :
    (Expr.binop bop l r).scannable = (l.scannable && r.scannable) := by
  cases bop <;> simp [Expr.scannable, Expr.kinds, Token.Kind.scannable, BinOp.kind]

@[simp] theorem Expr.scannable_cond :
    (Expr.cond test t els).scannable =
      (test.scannable && t.all Stmt.scannable && els.all (·.all Stmt.scannable)) := by
  cases els <;>
    simp [Expr.scannable, Expr.kinds, Token.Kind.scannable, ← stmtsKinds_all, Bool.and_assoc]

@[simp] theorem Expr.scannable_func :
    (Expr.func params t).scannable = (params.all Token.isName && t.all Stmt.scannable) := by
  simp [Expr.scannable, Expr.kinds, Token.Kind.scannable, ← stmtsKinds_all, ← paramKinds_all]

@[simp] theorem Expr.scannable_call :
    (Expr.call callee args).scannable = (callee.scannable && args.all Expr.scannable) := by
  simp [Expr.scannable, Expr.kinds, Token.Kind.scannable, ← argKinds_all]

@[simp] theorem Stmt.scannable_bind :
    (Stmt.bind name value).scannable = (Token.isName name && value.scannable) := by
  simp [Stmt.scannable, Expr.scannable, Stmt.kinds, Token.Kind.scannable]

@[simp] theorem Stmt.scannable_ret : (Stmt.ret ret).scannable = ret.all Expr.scannable := by
  cases ret <;> simp [Stmt.scannable, Expr.scannable, Stmt.kinds, Token.Kind.scannable]

@[simp] theorem Stmt.scannable_expr : (Stmt.expr value).scannable = value.scannable := by
  simp [Stmt.scannable, Expr.scannable, Stmt.kinds]

end Trees

/-! ## Parsers whose tokens scan back -/

namespace Parser

/-- Every token a parser has in view or still to read, its end of input included, scans back
from its spelling. -/
def Scannable (p : Parser) : Prop :=
  (∀ t ∈ p.cur :: p.peek :: p.pending, t.kind.scannable) ∧
    ∀ t, p.ending = .ok t → t.kind.scannable

theorem eofAt_scannable (pos : Pos) : (Token.eofAt pos).kind.scannable := rfl

theorem scannable_of {p : Parser} (cur : p.cur.kind.scannable) (peek : p.peek.kind.scannable)
    (pending : ∀ t ∈ p.pending, t.kind.scannable)
    (ending : ∀ t, p.ending = .ok t → t.kind.scannable) : p.Scannable :=
  ⟨List.forall_mem_cons.2 ⟨cur, List.forall_mem_cons.2 ⟨peek, pending⟩⟩, ending⟩

theorem Scannable.advance {p : Parser} (scannable : p.Scannable) : p.advance.Scannable := by
  obtain ⟨tokens, ending⟩ := scannable
  simp only [List.forall_mem_cons] at tokens
  obtain ⟨-, peek, pending⟩ := tokens
  unfold Parser.advance
  split
  · exact scannable_of peek (eofAt_scannable _) pending ending
  · split
    · next t rest same =>
      rw [same, List.forall_mem_cons] at pending
      exact scannable_of peek pending.1 pending.2 ending
    · split
      · next last ended => exact scannable_of peek (ending last ended) pending ending
      · exact scannable_of peek (eofAt_scannable _) pending ending

theorem scannable_ofScan (src : List UInt8) (limit : Nat) :
    (ofScan (Token.scan src) limit).Scannable := by
  obtain ⟨tokens, ending⟩ := Token.scanFrom_scannable Pos.start src
  exact Scannable.advance (Scannable.advance
    (scannable_of (eofAt_scannable _) (eofAt_scannable _) tokens ending))

end Parser

namespace Parse

open Monkey.Parser

/-- `t` is a token that some state satisfying `I` has in view. -/
def Seen (I : Parser → Prop) (t : Token) : Prop := ∃ q, I q ∧ (q.cur = t ∨ q.peek = t)

/-- A property of parser states that moving on and recording a syntax error at a token seen keep,
and that holds only of states whose tokens scan back. Every parse step keeps every such property
(`keeps_of_parse`). -/
class Tracked (I : Parser → Prop) : Prop where
  scannable {p : Parser} : I p → p.Scannable
  advance {p : Parser} : I p → I p.advance
  record {p : Parser} (e : SyntaxError) : Seen I e.token → I p →
    I { p with errors := p.errors.push e }

instance : Tracked Parser.Scannable := ⟨id, Scannable.advance, fun _ _ scannable => scannable⟩

/-- Every run of the step from a state satisfying `I` ends, whether it returns or halts, in a
state satisfying `I`, and what it returns satisfies `good`. -/
def Keeps {α : Type} (I : Parser → Prop) (x : ParseM α) (good : α → Prop) : Prop :=
  ∀ p, I p → I (landing (x.run p)) ∧ ∀ a q, x.run p = .ok a q → good a

section Keeps

variable {α β : Type} {I : Parser → Prop} {good : α → Prop}

theorem Keeps.pure {a : α} (holds : good a) : Keeps I (Pure.pure a : ParseM α) good :=
  fun _ scannable => ⟨scannable, by rintro _ _ ⟨⟩; exact holds⟩

theorem Keeps.throw (h : Halt) : Keeps I (MonadExcept.throw h : ParseM α) good :=
  fun _ scannable => ⟨scannable, by rintro _ _ ⟨⟩⟩

theorem Keeps.get : Keeps I (MonadState.get : ParseM Parser) I :=
  fun _ held => ⟨held, by rintro _ _ ⟨⟩; exact held⟩

theorem Keeps.bind {x : ParseM α} {k : α → ParseM β} {after : β → Prop}
    (first : Keeps I x good) (second : ∀ a, good a → Keeps I (k a) after) :
    Keeps I (x >>= k) after := by
  intro p scannable
  obtain ⟨landed, returns⟩ := first p scannable
  rw [EStateM.run_bind]
  cases run : x.run p with
  | ok a q =>
    rw [run] at landed
    exact second a (returns a q run) q landed
  | error e q =>
    rw [run] at landed
    exact ⟨landed, by rintro _ _ ⟨⟩⟩

theorem Keeps.throw_bind (h : Halt) (k : α → ParseM β) {after : β → Prop} :
    Keeps I (MonadExcept.throw h >>= k) after :=
  fun _ scannable => ⟨scannable, by rintro _ _ ⟨⟩⟩

theorem Keeps.tryCatch {x : ParseM α} {handler : Halt → ParseM α} (body : Keeps I x good)
    (recovers : ∀ h, Keeps I (handler h) good) : Keeps I (tryCatch x handler) good := by
  intro p scannable
  obtain ⟨landed, returns⟩ := body p scannable
  rw [EStateM.run_tryCatch]
  cases run : x.run p with
  | ok a q =>
    rw [run] at landed
    exact ⟨landed, fun a' q' same => returns a' q' (run.trans same)⟩
  | error h q =>
    rw [run] at landed
    exact recovers h q landed

theorem Keeps.expectNext_bind [Tracked I] {want : Wanted} {k : Bool → ParseM β}
    {after : β → Prop}
    (accepted : ∀ p : Parser, I p → want.accepts p.peek.kind →
      I (landing ((k true).run p.advance)) ∧
        ∀ b q, (k true).run p.advance = .ok b q → after b)
    (rejected : Keeps I (k false) after) : Keeps I (expectNext want >>= k) after := by
  intro p held
  cases wanted : want.accepts p.peek.kind
  · have run : (expectNext want >>= k).run p =
        (k false).run { p with errors := p.errors.push ⟨p.peek, .expected want⟩ } := by
      simp [expectNext, wanted, expected, record, EStateM.run_bind]
    rw [run]
    exact rejected _ (Tracked.record _ ⟨p, held, .inr rfl⟩ held)
  · have run : (expectNext want >>= k).run p = (k true).run p.advance := by
      simp [expectNext, wanted, EStateM.run_bind]
    rw [run]
    exact accepted p held wanted

theorem Keeps.at {x : ParseM α} (keeps : Keeps I x good) {p : Parser} (held : I p) :
    I (landing (x.run p)) ∧ ∀ a q, x.run p = .ok a q → good a :=
  keeps p held

end Keeps

section Steps

variable {I : Parser → Prop} [Tracked I]

theorem next_keeps : Keeps I next fun _ => True :=
  fun _ held => ⟨Tracked.advance held, fun _ _ _ => trivial⟩

theorem Seen.scannable {t : Token} (seen : Seen I t) : t.kind.scannable := by
  obtain ⟨q, held, rfl | rfl⟩ := seen
  · exact (Tracked.scannable held).1 q.cur (by simp)
  · exact (Tracked.scannable held).1 q.peek (by simp)

omit [Tracked I] in
theorem current_keeps : Keeps I current (Seen I) :=
  Keeps.bind Keeps.get fun p held => Keeps.pure ⟨p, held, .inl rfl⟩

omit [Tracked I] in
theorem upcoming_keeps : Keeps I upcoming (Seen I) :=
  Keeps.bind Keeps.get fun p held => Keeps.pure ⟨p, held, .inr rfl⟩

theorem record_keeps {tok : Token} (seen : Seen I tok) (fault : SyntaxFault) :
    Keeps I (record tok fault) fun _ => True :=
  fun _ held => ⟨Tracked.record ⟨tok, fault⟩ seen held, fun _ _ _ => trivial⟩

theorem expectNext_keeps (want : Wanted) : Keeps I (expectNext want) fun _ => True := by
  rw [expectNext]
  refine Keeps.bind upcoming_keeps fun t seen => ?_
  split
  · exact Keeps.bind next_keeps fun _ _ => Keeps.pure trivial
  · exact Keeps.bind (record_keeps seen _) fun _ _ => Keeps.pure trivial

theorem skipWhile_keeps (cond : Parser → Bool) (fuel : Nat) :
    Keeps I (skipWhile cond fuel) fun _ => True := by
  induction fuel with
  | zero => exact Keeps.pure trivial
  | succ fuel ih =>
    rw [skipWhile]
    refine Keeps.bind Keeps.get fun p _ => ?_
    split
    · exact Keeps.bind next_keeps fun _ _ => ih
    · exact Keeps.pure trivial

theorem skipAll_keeps (cond : Parser → Bool) : Keeps I (skipAll cond) fun _ => True :=
  Keeps.bind Keeps.get fun p _ => skipWhile_keeps cond p.rounds


theorem skipGivenUp_keeps (opened : Int) (fuel : Nat) :
    Keeps I (skipGivenUp opened fuel) fun _ => True := by
  induction fuel generalizing opened with
  | zero => exact Keeps.pure trivial
  | succ fuel ih =>
    rw [skipGivenUp.eq_2]
    refine Keeps.bind Keeps.get fun p _ => ?_
    split
    · exact Keeps.pure trivial
    · split
      · exact Keeps.bind next_keeps fun _ _ => ih _
      · split
        · exact Keeps.pure trivial
        · exact Keeps.bind next_keeps fun _ _ => ih _
      · split
        · exact Keeps.pure trivial
        · exact Keeps.bind next_keeps fun _ _ => ih _
      · exact Keeps.bind next_keeps fun _ _ => ih _

theorem paramsFrom_keeps (acc : Array String) (named : acc.toList.all Token.isName) (fuel : Nat) :
    Keeps I (paramsFrom acc fuel) fun ps => ps.all Token.isName := by
  induction fuel generalizing acc with
  | zero => exact Keeps.throw _
  | succ fuel ih =>
    rw [paramsFrom.eq_2]
    refine Keeps.bind current_keeps fun c seen => ?_
    split
    · next name ident =>
      have scannable := seen.scannable
      rw [ident] at scannable
      have named' : (acc.push name).toList.all Token.isName := by
        simpa [named, Token.Kind.scannable] using scannable
      refine Keeps.bind upcoming_keeps fun t seen' => ?_
      split
      · exact Keeps.bind next_keeps fun _ _ => Keeps.bind next_keeps fun _ _ => ih _ named'
      · split
        · exact Keeps.bind next_keeps fun _ _ => Keeps.pure named'
        · exact Keeps.bind (record_keeps seen' _) fun _ _ => Keeps.throw _
    · exact Keeps.bind (record_keeps seen _) fun _ _ => Keeps.throw _

theorem params_keeps : Keeps I params fun ps => ps.all Token.isName := by
  rw [params.eq_1]
  refine Keeps.bind upcoming_keeps fun t _ => ?_
  split
  · exact Keeps.bind next_keeps fun _ _ => Keeps.pure rfl
  · exact Keeps.bind next_keeps fun _ _ => Keeps.bind Keeps.get fun p _ =>
      paramsFrom_keeps _ rfl _

omit [Tracked I] in
theorem dropFailed_keeps (h : Halt) : Keeps I (dropFailed h) fun o => o.all Stmt.scannable := by
  cases h
  · exact Keeps.pure rfl
  · exact Keeps.throw _

theorem isName_identName {t : Token} (ident : Wanted.ident.accepts t.kind)
    (scannable : t.kind.scannable) : Token.isName t.identName := by
  unfold Token.identName
  split
  · next name same =>
    rw [same] at scannable
    exact scannable
  · next other => cases same : t.kind <;> simp_all [Wanted.accepts]

theorem scannable_of_lead {k : Token.Kind} {e : Expr} (lead : k.lead = .leaf e)
    (scannable : k.scannable) : e.scannable := by
  cases k <;> cases lead <;> simp_all [Token.Kind.scannable]

/-- Every parse function keeps the tokens scannable and returns trees whose tokens scan back,
given the same of the trees it starts from. -/
theorem keeps_of_parse :
    (∀ b opened min, Keeps I (expression b opened min) fun e => e.scannable) ∧
    (∀ b opened min left fuel, left.scannable →
      Keeps I (operators b opened min left fuel) fun e => e.scannable) ∧
    (∀ b opened callee, callee.scannable →
      Keeps I (callArgs b opened callee) fun e => e.scannable) ∧
    (∀ b opened acc fuel, acc.toList.all Expr.scannable →
      Keeps I (argsFrom b opened acc fuel) fun args => args.all Expr.scannable) ∧
    (∀ b opened, Keeps I (operand b opened) fun e => e.scannable) ∧
    (∀ b opened, Keeps I (function b opened) fun e => e.scannable) ∧
    (∀ b opened, Keeps I (block b opened) fun ss => ss.all Stmt.scannable) ∧
    (∀ b opened acc fuel, acc.toList.all Stmt.scannable →
      Keeps I (blockFrom b opened acc fuel) fun ss => ss.all Stmt.scannable) ∧
    (∀ b opened, Keeps I (statement b opened) fun o => o.all Stmt.scannable) ∧
    (∀ b opened, Keeps I (letStatement b opened) fun o => o.all Stmt.scannable) ∧
    (∀ b opened, Keeps I (returnStatement b opened) fun o => o.all Stmt.scannable) ∧
    (∀ b opened, Keeps I (conditional b opened) fun e => e.scannable) := by
  refine Parse.expression.mutual_induct
    (fun b opened min => Keeps I (expression b opened min) fun e => e.scannable)
    (fun b opened min left fuel => left.scannable →
      Keeps I (operators b opened min left fuel) fun e => e.scannable)
    (fun b opened callee => callee.scannable →
      Keeps I (callArgs b opened callee) fun e => e.scannable)
    (fun b opened acc fuel => acc.toList.all Expr.scannable →
      Keeps I (argsFrom b opened acc fuel) fun args => args.all Expr.scannable)
    (fun b opened => Keeps I (operand b opened) fun e => e.scannable)
    (fun b opened => Keeps I (function b opened) fun e => e.scannable)
    (fun b opened => Keeps I (block b opened) fun ss => ss.all Stmt.scannable)
    (fun b opened acc fuel => acc.toList.all Stmt.scannable →
      Keeps I (blockFrom b opened acc fuel) fun ss => ss.all Stmt.scannable)
    (fun b opened => Keeps I (statement b opened) fun o => o.all Stmt.scannable)
    (fun b opened => Keeps I (letStatement b opened) fun o => o.all Stmt.scannable)
    (fun b opened => Keeps I (returnStatement b opened) fun o => o.all Stmt.scannable)
    (fun b opened => Keeps I (conditional b opened) fun e => e.scannable)
    ?_ ?_ ?_ ?_ ?_ ?_ ?_ ?_ ?_ ?_ ?_ ?_ ?_ ?_ ?_ ?_
  · intro opened min
    rw [expression.eq_1]
    exact Keeps.bind Keeps.get fun p held =>
      Keeps.bind (record_keeps ⟨p, held, .inl rfl⟩ _) fun _ _ => Keeps.throw _
  · intro b opened min operand operators
    rw [expression.eq_2]
    exact Keeps.bind operand fun left scannable => Keeps.bind Keeps.get fun p _ =>
      operators left p scannable
  · intro b opened min left scannable
    rw [operators.eq_1]
    exact Keeps.pure scannable
  · intro b opened min left fuel callArgs afterCall right afterBinop scannable
    rw [operators.eq_2]
    refine Keeps.bind upcoming_keeps fun t _ => ?_
    split
    · exact Keeps.pure scannable
    · split
      · exact Keeps.bind next_keeps fun _ _ => Keeps.bind (callArgs scannable) afterCall
      · split
        · exact Keeps.bind next_keeps fun _ _ => Keeps.bind next_keeps fun _ _ =>
            Keeps.bind (right t) fun r scannable' =>
              afterBinop _ _ (by simp [scannable, scannable'])
        · exact Keeps.pure scannable
  · intro b opened callee args scannable
    rw [callArgs.eq_1]
    refine Keeps.bind upcoming_keeps fun t _ => ?_
    split
    · exact Keeps.bind next_keeps fun _ _ => Keeps.pure (by simp [scannable])
    · refine Keeps.bind next_keeps fun _ _ => Keeps.bind Keeps.get fun p _ =>
        Keeps.bind (args p rfl) fun args scannable' =>
          Keeps.bind (expectNext_keeps _) fun ok _ => ?_
      split
      · exact Keeps.pure (by simp [scannable, scannable'])
      · exact Keeps.throw _
  · intro b opened acc scannable
    rw [argsFrom.eq_1]
    exact Keeps.pure scannable
  · intro b opened acc fuel first more scannable
    rw [argsFrom.eq_2]
    refine Keeps.bind first fun arg scannable' => Keeps.bind upcoming_keeps fun t _ => ?_
    have pushed : (acc.push arg).toList.all Expr.scannable := by simp_all
    split
    · exact Keeps.bind next_keeps fun _ _ => Keeps.bind next_keeps fun _ _ => more arg pushed
    · exact Keeps.pure pushed
  · intro b opened unary inner conditional function
    rw [operand.eq_1]
    refine Keeps.bind current_keeps fun c seen => ?_
    split
    · next e lead => exact Keeps.pure (scannable_of_lead lead seen.scannable)
    · exact Keeps.bind next_keeps fun _ _ => Keeps.bind unary fun _ scannable' =>
        Keeps.pure (by simp [scannable'])
    · refine Keeps.bind next_keeps fun _ _ => Keeps.bind inner fun e scannable' =>
        Keeps.bind (expectNext_keeps _) fun ok _ => ?_
      split
      · exact Keeps.pure scannable'
      · exact Keeps.throw _
    · exact conditional
    · exact function
    · exact Keeps.bind (record_keeps seen _) fun _ _ => Keeps.throw _
  · intro b opened block
    rw [function.eq_1]
    refine Keeps.bind (expectNext_keeps _) fun ok _ => ?_
    dsimp only
    split
    · refine Keeps.bind params_keeps fun ps named =>
        Keeps.bind (expectNext_keeps _) fun ok' _ => ?_
      split
      · exact Keeps.bind block fun body scannable => Keeps.pure (by simp [named, scannable])
      · exact Keeps.throw_bind _ _
    · exact Keeps.throw_bind _ _
  · intro b opened statements
    rw [block.eq_1]
    refine Keeps.bind next_keeps fun _ _ => Keeps.bind Keeps.get fun p _ =>
      Keeps.bind (statements p rfl) fun ss scannable => Keeps.bind current_keeps fun c seen => ?_
    dsimp only
    split
    · exact Keeps.bind (record_keeps seen _) fun _ _ => Keeps.pure scannable
    · exact Keeps.pure scannable
  · intro b opened acc scannable
    rw [blockFrom.eq_1]
    exact Keeps.pure scannable
  · intro b opened acc fuel statement more same scannable
    rw [blockFrom.eq_2]
    refine Keeps.bind current_keeps fun c _ => ?_
    split
    · exact Keeps.pure scannable
    · refine Keeps.bind statement fun o scannable' => ?_
      split
      · exact Keeps.bind next_keeps fun _ _ => more _ (by simp_all)
      · refine Keeps.bind current_keeps fun c' _ => ?_
        split
        · exact Keeps.pure scannable
        · exact Keeps.bind next_keeps fun _ _ => same scannable
  · intro b opened returns binds value p scannable
    rw [statement_run]
    refine Keeps.tryCatch ?_ dropFailed_keeps p scannable
    unfold statementBody
    split
    · exact Keeps.pure rfl
    · exact binds
    · exact returns
    · refine Keeps.bind value fun e scannable' => Keeps.bind upcoming_keeps fun t _ => ?_
      split
      · exact Keeps.bind next_keeps fun _ _ => Keeps.pure (by simp [scannable'])
      · exact Keeps.pure (by simp [scannable'])
  · intro b opened value
    rw [letStatement.eq_1]
    -- the name is that of the token `expectNext` moves onto, so the run is followed from there
    refine Keeps.expectNext_bind (fun p held ident => ?_) ?_
    · simp only [↓reduceIte]
      rw [run_bind_ok (current_run _), cur_advance]
      have named := isName_identName ident ((Tracked.scannable held).1 p.peek (by simp))
      refine Keeps.at ?_ (Tracked.advance held)
      refine Keeps.bind (expectNext_keeps _) fun ok _ => ?_
      split
      · refine Keeps.bind next_keeps fun _ _ => Keeps.bind value fun e scannable' =>
          Keeps.bind upcoming_keeps fun t _ => ?_
        split
        · exact Keeps.bind next_keeps fun _ _ => Keeps.pure (by simp [named, scannable'])
        · exact Keeps.pure (by simp [named, scannable'])
      · exact Keeps.bind (skipAll_keeps _) fun _ _ => Keeps.pure rfl
    · simp only [Bool.false_eq_true, ↓reduceIte]
      exact Keeps.bind (skipAll_keeps _) fun _ _ => Keeps.pure rfl
  · intro b opened value
    rw [returnStatement.eq_1]
    refine Keeps.bind upcoming_keeps fun t _ => ?_
    split
    · dsimp only
      split
      · exact Keeps.bind next_keeps fun _ _ => Keeps.pure rfl
      · exact Keeps.pure rfl
    · refine Keeps.bind next_keeps fun _ _ => Keeps.bind value fun e scannable =>
        Keeps.bind (skipAll_keeps _) fun _ _ => Keeps.bind upcoming_keeps fun t _ => ?_
      dsimp only
      split
      · exact Keeps.bind next_keeps fun _ _ => Keeps.pure (by simp [scannable])
      · exact Keeps.pure (by simp [scannable])
  · intro b opened test block
    rw [conditional.eq_1]
    refine Keeps.bind (expectNext_keeps _) fun ok _ => ?_
    dsimp only
    split
    · refine Keeps.bind next_keeps fun _ _ => Keeps.bind test fun cond tested =>
        Keeps.bind (expectNext_keeps _) fun ok _ => ?_
      split
      · refine Keeps.bind (expectNext_keeps _) fun ok _ => ?_
        split
        · refine Keeps.bind block fun t scannable => Keeps.bind upcoming_keeps fun t' _ => ?_
          split
          · refine Keeps.bind next_keeps fun _ _ => Keeps.bind (expectNext_keeps _) fun ok _ => ?_
            split
            · exact Keeps.bind block fun e scannable' =>
                Keeps.pure (by simp [tested, scannable, scannable'])
            · exact Keeps.throw_bind _ _
          · exact Keeps.pure (by simp [tested, scannable])
        · exact Keeps.throw_bind _ _
      · exact Keeps.throw_bind _ _
    · exact Keeps.throw_bind _ _

theorem statement_keeps (b opened : Nat) :
    Keeps I (statement b opened) fun o => o.all Stmt.scannable :=
  keeps_of_parse.2.2.2.2.2.2.2.2.1 b opened

theorem program_keeps (acc : Array Stmt) (scannable : acc.toList.all Stmt.scannable) (fuel : Nat) :
    Keeps I (program acc fuel) fun ss => ss.all Stmt.scannable := by
  induction fuel generalizing acc with
  | zero => exact Keeps.pure scannable
  | succ fuel ih =>
    rw [program.eq_2]
    refine Keeps.bind Keeps.get fun p _ => ?_
    split
    · exact Keeps.pure scannable
    · refine Keeps.bind (Keeps.tryCatch ?_ fun h => ?_ :
          Keeps I _ fun acc' : Array Stmt => acc'.toList.all Stmt.scannable)
        fun acc' scannable' => ?_
      · refine Keeps.bind (statement_keeps _ _) fun o scannable' => ?_
        split
        · exact Keeps.pure (by simp_all)
        · exact Keeps.pure scannable
      · split
        · exact Keeps.bind Keeps.get fun q _ => Keeps.bind (skipGivenUp_keeps _ _) fun _ _ =>
            Keeps.pure scannable
        · exact Keeps.pure scannable
      · refine Keeps.bind Keeps.get fun q _ => ?_
        split
        · exact Keeps.pure scannable'
        · exact Keeps.bind next_keeps fun _ _ => ih _ scannable'

end Steps

end Parse

theorem Parser.finish_ok {p : Parser} {stmts : List Stmt} {prog : Program}
    (finished : p.finish stmts = .ok prog) : prog = ⟨stmts⟩ := by
  unfold Parser.finish at finished
  split at finished
  · cases finished
  · split at finished
    · cases finished
      rfl
    · cases finished

theorem parseWith_scannable {limit : Nat} {src : List UInt8} {prog : Program}
    (parsed : Program.parseWith limit src = .ok prog) : prog.stmts.all Stmt.scannable := by
  unfold Program.parseWith at parsed
  dsimp only at parsed
  have keeps := Parse.program_keeps #[] rfl (Parser.ofScan (Token.scan src) limit).rounds
    (Parser.ofScan (Token.scan src) limit) (Parser.scannable_ofScan src limit)
  generalize (Parse.program #[] _).run _ = run at parsed keeps
  cases run with
  | ok stmts q =>
    rw [Parser.finish_ok parsed]
    exact keeps.2 stmts q rfl
  | error h q =>
    rw [Parser.finish_ok parsed]
    rfl

end Monkey
