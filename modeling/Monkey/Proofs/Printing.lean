import Monkey.Proofs.Lexing
import Monkey.Syntax

/-!
# Printed text scans back into its tokens

The text of a syntax tree is a run of lexemes with blanks where two of them would otherwise run
together. `Expr.kinds` lists the kinds of its tokens in order: identifiers and literals as they
stand, operations between parentheses, blocks between braces. When every identifier of the tree is
a name the scanner reads as one token (letters and underscores, and no keyword) and every integer
literal is non-negative, which is what `Token.Kind.scannable` asks of each kind, the scanner reads
the printed text of a program as exactly those kinds (`scan_render`).

`Token.Spells bs ks` says that `bs` reads as tokens of the kinds `ks`. Printing builds such a
reading from the end: each lexeme is the longest token where it stands because what follows it is
a blank, a delimiter or the end (`Apart`).
-/

set_option autoImplicit false
set_option relaxedAutoImplicit false

namespace Monkey

namespace Text

private theorem toList_loop (bs : ByteArray) (i : Nat) (r : List UInt8) (within : i ≤ bs.size) :
    ByteArray.toList.loop bs i r = r.reverse ++ bs.data.toList.drop i := by
  induction left : bs.size - i generalizing i r with
  | zero =>
    rw [ByteArray.toList.loop]
    obtain rfl : i = bs.size := by omega
    simp
  | succ n ih =>
    rw [ByteArray.toList.loop, if_pos (by omega), ih (i + 1) _ (by omega) (by omega)]
    have inside : i < bs.data.toList.length := by simp; omega
    rw [List.drop_eq_getElem_cons inside]
    simp only [ByteArray.get!, Array.getElem_toList, getElem!_pos bs.data i (by simpa using inside)]
    simp

theorem bytes_eq_flatMap (s : String) : bytes s = s.toList.flatMap String.utf8EncodeChar := by
  rw [bytes, String.toUTF8_eq_toByteArray, ← @String.ofList_toList s,
    String.toByteArray_ofList, String.toList_ofList, ByteArray.toList,
    toList_loop _ _ _ (Nat.zero_le _)]
  simp [List.utf8Encode]

theorem bytes_append (s t : String) : bytes (s ++ t) = bytes s ++ bytes t := by
  simp [bytes_eq_flatMap]

end Text

open Text (bytes)

namespace Token

/-- A text the scanner reads as one identifier of that name: letters and underscores, and no
keyword. -/
def isName (s : String) : Bool :=
  !s.toList.isEmpty && s.toList.all (fun c => c.isAlpha || c == '_') && Kind.ofWord s == .ident s

/-- The kinds of token that the scanner reads back from their own spelling: identifiers whose
name is a name, and integers that are not negative. Every other kind has a fixed spelling. -/
def Kind.scannable : Kind → Bool
  | .ident name => isName name
  | .int v => decide (0 ≤ v.toInt)
  | _ => true

/-- `bs` reads as tokens of the kinds `ks`, in order, with nothing but blanks after them. -/
def Spells (bs : List UInt8) (ks : List Kind) : Prop :=
  ∃ toks, Reads bs toks ∧ toks.map Prod.fst = ks

/-- What follows a lexeme keeps it whole: no letter or digit comes next. -/
def Apart (after : List UInt8) : Prop := ∀ c ∈ after.head?, ¬ isLetter c ∧ ¬ isDigit c

theorem Spells.nil : Spells [] [] := ⟨[], .blanks (by simp), rfl⟩

theorem Spells.token {k : Kind} {lexeme after : List UInt8} {ks : List Kind}
    (longest : Longest k lexeme after) : Spells after ks → Spells (lexeme ++ after) (k :: ks)
  | ⟨toks, reads, kinds⟩ =>
    ⟨(k, lexeme) :: toks, .token (by simp : ∀ c ∈ ([] : List UInt8), isBlank c) longest reads,
      by simp [kinds]⟩

theorem Spells.blank {c : UInt8} (blank : isBlank c) {bs : List UInt8} {ks : List Kind} :
    Spells bs ks → Spells (c :: bs) ks
  | ⟨toks, reads, kinds⟩ => by
    refine ⟨toks, ?_, kinds⟩
    cases reads with
    | blanks blanks => exact .blanks (List.forall_mem_cons.2 ⟨blank, blanks⟩)
    | token blanks longest rest =>
      exact @Reads.token (c :: _) _ _ _ _ (List.forall_mem_cons.2 ⟨blank, blanks⟩) longest rest

theorem apart_nil : Apart [] := by simp [Apart]

theorem apart_cons {c : UInt8} (letter : isLetter c = false) (digit : isDigit c = false)
    (rest : List UInt8) : Apart (c :: rest) := by
  intro c' mem
  obtain rfl := Option.mem_some_iff.1 mem
  simp [letter, digit]

theorem apart_blank {c : UInt8} (blank : isBlank c) (rest : List UInt8) : Apart (c :: rest) := by
  cases word : (isLetter c || isDigit c)
  · simp only [Bool.or_eq_false_iff] at word
    exact apart_cons word.1 word.2 rest
  · rw [isBlank_of_word word] at blank
    cases blank

theorem Spells.delimiter {k : Kind} {b : UInt8} (delimiter : k.isDelimiter)
    (spelt : k.name.toList = spelling [b]) {after : List UInt8} {ks : List Kind}
    (rest : Spells after ks) : Spells (b :: after) (k :: ks) :=
  rest.token (.delimiter delimiter spelt)

theorem Spells.assign {after : List UInt8} {ks : List Kind} (single : after.head? ≠ some 61)
    (rest : Spells after ks) : Spells (61 :: after) (.assign :: ks) :=
  rest.token (.assign single)

theorem nameChar {c : Char} (named : (c.isAlpha || c == '_') = true) :
    String.utf8EncodeChar c = [UInt8.ofNat c.toNat] ∧ isLetter (UInt8.ofNat c.toNat) ∧
      Char.ofNat (UInt8.ofNat c.toNat).toNat = c := by
  have range : (65 ≤ c.toNat ∧ c.toNat ≤ 90) ∨ (97 ≤ c.toNat ∧ c.toNat ≤ 122) ∨
      c.toNat = 95 := by
    simp only [Char.isAlpha, Char.isUpper, Char.isLower, Bool.or_eq_true, Bool.and_eq_true,
      decide_eq_true_eq, beq_iff_eq] at named
    rcases named with (⟨low, high⟩ | ⟨low, high⟩) | rfl
    · simp [UInt32.le_iff_toNat_le] at low high
      omega
    · simp [UInt32.le_iff_toNat_le] at low high
      omega
    · simp
  have small : c.toNat < 128 := by omega
  have byte : (UInt8.ofNat c.toNat).toNat = c.toNat := by simp; omega
  refine ⟨?_, ?_, ?_⟩
  · rw [String.utf8EncodeChar_eq_singleton
      (by simp [Char.utf8Size, UInt32.lt_iff_toNat_lt]; omega)]
    simp only [List.cons.injEq, and_true, ← UInt8.toNat_inj, UInt32.toNat_toUInt8, Char.toNat_val,
      byte]
    omega
  · simp only [isLetter, Bool.or_eq_true, Bool.and_eq_true, decide_eq_true_eq,
      UInt8.le_iff_toNat_le, ← UInt8.toNat_inj, byte]
    simp
    omega
  · rw [byte, Char.ofNat_toNat]

private theorem encode_nameChars {cs : List Char}
    (chars : ∀ c ∈ cs, (c.isAlpha || c == '_') = true) :
    cs.flatMap String.utf8EncodeChar = cs.map fun c => UInt8.ofNat c.toNat := by
  induction cs with
  | nil => rfl
  | cons c cs ih =>
    rw [List.flatMap_cons, List.map_cons, (nameChar (chars c (List.mem_cons_self ..))).1,
      ih fun c' mem => chars c' (List.mem_cons_of_mem _ mem)]
    rfl

theorem Longest.name {name : String} (named : isName name) {after : List UInt8}
    (stops : ∀ c ∈ after.head?, ¬ isLetter c) : Longest (.ident name) (bytes name) after := by
  simp only [isName, Bool.and_eq_true, Bool.not_eq_true', List.isEmpty_eq_false_iff,
    List.all_eq_true, beq_iff_eq] at named
  obtain ⟨⟨nonempty, chars⟩, ident⟩ := named
  have encoded : bytes name = name.toList.map fun c => UInt8.ofNat c.toNat := by
    rw [Text.bytes_eq_flatMap]
    exact encode_nameChars chars
  have spelt : spelling (bytes name) = name.toList := by
    rw [encoded, spelling, List.map_map]
    exact (List.map_congr_left fun c mem => (nameChar (chars c mem)).2.2).trans (List.map_id _)
  refine .ident (by simpa [encoded] using nonempty) ?_ stops ?_ spelt.symm
  · rw [encoded]
    intro b mem
    obtain ⟨c, spelt, rfl⟩ := List.mem_map.1 mem
    exact (nameChar (chars c spelt)).2.1
  · intro k keyword same
    rw [spelt, String.toList_inj] at same
    rw [← same, keyword_ofWord keyword] at ident
    rw [ident] at keyword
    cases keyword

private theorem bytes_digitChar {d : Nat} (small : d < 10) :
    bytes (String.singleton d.digitChar) = [UInt8.ofNat (48 + d)] := by
  rw [Text.bytes_eq_flatMap, String.toList_singleton]
  interval_cases d <;> decide

theorem digits_repr (n : Nat) :
    bytes n.repr ≠ [] ∧ (∀ c ∈ bytes n.repr, isDigit c) ∧
      digitsValue (bytes n.repr) = n := by
  induction n using Nat.strong_induction_on with
  | _ n ih =>
    by_cases small : n < 10
    · rw [Nat.repr_of_lt small, bytes_digitChar small]
      refine ⟨List.cons_ne_nil _ _, ?_, ?_⟩
      · simp only [List.mem_singleton, forall_eq]
        interval_cases n <;> decide
      · simp only [digitsValue, List.foldl_cons, List.foldl_nil]
        interval_cases n <;> decide
    · rw [Nat.repr_of_ge (by omega), Text.bytes_append, bytes_digitChar (Nat.mod_lt n (by omega))]
      obtain ⟨-, digits, value⟩ := ih (n / 10) (by omega)
      have last : (UInt8.ofNat (48 + n % 10)).toNat = 48 + n % 10 := by simp; omega
      refine ⟨by simp, ?_, ?_⟩
      · intro c mem
        rcases List.mem_append.1 mem with before | onlast
        · exact digits c before
        · rw [List.mem_singleton.1 onlast]
          simp only [isDigit, Bool.and_eq_true, decide_eq_true_eq, UInt8.le_iff_toNat_le, last]
          simp
          omega
      · rw [digitsValue, List.foldl_append, ← digitsValue, value]
        simp only [List.foldl_cons, List.foldl_nil, last]
        omega

theorem Longest.literal {v : Int32} (nonneg : 0 ≤ v.toInt) {after : List UInt8}
    (stops : ∀ c ∈ after.head?, ¬ isDigit c ∧ ¬ isLetter c) :
    Longest (.int v) (bytes (toString v.toInt)) after := by
  obtain ⟨n, value⟩ := Int.eq_ofNat_of_zero_le nonneg
  have printed : toString v.toInt = n.repr := by rw [value]; rfl
  obtain ⟨nonempty, digits, denotes⟩ := digits_repr n
  rw [printed]
  refine .int nonempty digits stops ?_
  rw [value, ← digitsValue_eq_decimal, denotes]

theorem Longest.keywordName {k : Kind} (keyword : k.isKeyword) {after : List UInt8}
    (stops : ∀ c ∈ after.head?, ¬ isLetter c) : Longest k (bytes k.name) after := by
  have spelt : bytes k.name ≠ [] ∧ (∀ c ∈ bytes k.name, isLetter c) ∧
      k.name.toList = spelling (bytes k.name) := by
    cases k <;> simp only [Kind.isKeyword, Bool.false_eq_true] at keyword <;>
      simp [Kind.name, Text.bytes_eq_flatMap, String.utf8EncodeChar, spelling] <;> decide
  exact .keyword spelt.1 spelt.2.1 stops keyword spelt.2.2

theorem Spells.keyword {k : Kind} (keyword : k.isKeyword) {after : List UInt8} {ks : List Kind}
    (apart : Apart after) (rest : Spells after ks) : Spells (bytes k.name ++ after) (k :: ks) :=
  rest.token (.keywordName keyword fun c mem => (apart c mem).1)

theorem Longest.head_ne_eq {k : Kind} {lexeme after : List UInt8}
    (longest : Longest k lexeme after) (notEq : k ≠ .eq) (notAssign : k ≠ .assign) :
    ∃ c tail, lexeme = c :: tail ∧ c ≠ 61 := by
  cases longest with
  | eq => exact absurd rfl notEq
  | assign => exact absurd rfl notAssign
  | ne | bang => exact ⟨_, _, rfl, by decide⟩
  | delimiter delimiter named =>
    refine ⟨_, _, rfl, fun same => ?_⟩
    subst same
    have byte := ofByte?_of_delimiter delimiter named
    cases byte
  | keyword nonempty letters | ident nonempty letters =>
    obtain ⟨c, w, rfl⟩ := List.exists_cons_of_ne_nil nonempty
    refine ⟨c, w, rfl, fun same => ?_⟩
    have letter := letters c (List.mem_cons_self ..)
    subst same
    revert letter
    decide
  | int nonempty digits =>
    obtain ⟨c, w, rfl⟩ := List.exists_cons_of_ne_nil nonempty
    refine ⟨c, w, rfl, fun same => ?_⟩
    have digit := digits c (List.mem_cons_self ..)
    subst same
    revert digit
    decide
  | illegal _ _ _ noEqSign => exact ⟨_, _, rfl, noEqSign⟩

end Token

namespace UnOp

/-- The kind of token a unary operator is spelt as. -/
def kind : UnOp → Token.Kind
  | not => .bang
  | neg => .minus

end UnOp

namespace BinOp

/-- The kind of token a binary operator is spelt as. -/
def kind : BinOp → Token.Kind
  | add => .plus
  | sub => .minus
  | mul => .star
  | div => .slash
  | lt => .lt
  | gt => .gt
  | eq => .eq
  | ne => .ne

end BinOp

/-- The kinds of the tokens of parameter names joined by commas. -/
def paramKinds : List String → List Token.Kind
  | [] => []
  | [p] => [.ident p]
  | p :: rest => .ident p :: .comma :: paramKinds rest

mutual

/-- The kinds of the tokens of an expression's text, in order. -/
def Expr.kinds : Expr → List Token.Kind
  | .ident name => [.ident name]
  | .int v => [.int v]
  | .bool b => [if b then .kwTrue else .kwFalse]
  | .unop op arg => .lparen :: op.kind :: arg.kinds ++ [.rparen]
  | .binop op l r => .lparen :: l.kinds ++ op.kind :: r.kinds ++ [.rparen]
  | .cond test t none => .kwIf :: test.kinds ++ .lbrace :: stmtsKinds t ++ [.rbrace]
  | .cond test t (some e) =>
    .kwIf :: test.kinds ++ .lbrace :: stmtsKinds t ++ .rbrace :: .kwElse :: .lbrace ::
      stmtsKinds e ++ [.rbrace]
  | .func params body =>
    .kwFn :: .lparen :: paramKinds params ++ .rparen :: .lbrace :: stmtsKinds body ++ [.rbrace]
  | .call callee args => callee.kinds ++ .lparen :: argKinds args ++ [.rparen]

/-- The kinds of the tokens of call arguments joined by commas. -/
def argKinds : List Expr → List Token.Kind
  | [] => []
  | [a] => a.kinds
  | a :: rest => a.kinds ++ .comma :: argKinds rest

/-- The kinds of the tokens of a statement's text. -/
def Stmt.kinds : Stmt → List Token.Kind
  | .bind name value => .kwLet :: .ident name :: .assign :: value.kinds ++ [.semicolon]
  | .ret none => [.kwReturn, .semicolon]
  | .ret (some value) => .kwReturn :: value.kinds ++ [.semicolon]
  | .expr e => e.kinds

/-- The kinds of the tokens of statements, one after the other. -/
def stmtsKinds : List Stmt → List Token.Kind
  | [] => []
  | s :: rest => s.kinds ++ stmtsKinds rest

end

/-- The kinds of the tokens of a program's text. -/
def Program.kinds (p : Program) : List Token.Kind := stmtsKinds p.stmts

namespace Token

theorem Longest.binOp (op : BinOp) (after : List UInt8) :
    Longest op.kind (bytes op.symbol) after := by
  cases op <;> simp [BinOp.kind, BinOp.symbol, Text.bytes_eq_flatMap, String.utf8EncodeChar]
  all_goals first | exact .eq | exact .ne | exact .delimiter rfl (by decide)

theorem Longest.unOp (op : UnOp) {after : List UInt8} (single : after.head? ≠ some 61) :
    Longest op.kind (bytes op.symbol) after := by
  cases op <;> simp [UnOp.kind, UnOp.symbol, Text.bytes_eq_flatMap, String.utf8EncodeChar]
  · exact .bang single
  · exact .delimiter rfl (by decide)

end Token

/-! ## The bytes of printed text

Each equation of the printer, as bytes: keywords as the spelling of their kind, every other fixed
piece as its bytes. -/

section Bytes

open Token (Kind)

variable (name : String) (b : Bool) (op : UnOp) (bop : BinOp) (arg l r test callee value : Expr)
  (t e body : List Stmt) (p q : String) (params : List String) (a a' : Expr) (args : List Expr)
  (s s' : Stmt) (ss : List Stmt) (sep : String)

theorem bytes_render_bool :
    bytes (Expr.bool b).render = bytes (if b then Kind.kwTrue else Kind.kwFalse).name := by
  cases b <;> simp [Expr.render, Kind.name]

theorem bytes_render_unop :
    bytes (Expr.unop op arg).render = 40 :: bytes op.symbol ++ bytes arg.render ++ [41] := by
  simp [Expr.render, Text.bytes_eq_flatMap, String.utf8EncodeChar]

theorem bytes_render_binop :
    bytes (Expr.binop bop l r).render =
      40 :: bytes l.render ++ 32 :: bytes bop.symbol ++ 32 :: bytes r.render ++ [41] := by
  simp [Expr.render, Text.bytes_eq_flatMap, String.utf8EncodeChar]

theorem bytes_render_cond :
    bytes (Expr.cond test t none).render =
      bytes Kind.kwIf.name ++ 32 :: bytes test.render ++ 32 :: bytes (renderBlock t) := by
  simp [Expr.render, Kind.name, Text.bytes_eq_flatMap, String.utf8EncodeChar]

theorem bytes_render_cond_else :
    bytes (Expr.cond test t (some e)).render =
      bytes Kind.kwIf.name ++ 32 :: bytes test.render ++ 32 :: bytes (renderBlock t) ++
        32 :: bytes Kind.kwElse.name ++ 32 :: bytes (renderBlock e) := by
  simp [Expr.render, Kind.name, Text.bytes_eq_flatMap, String.utf8EncodeChar]

theorem bytes_render_func :
    bytes (Expr.func params body).render =
      bytes Kind.kwFn.name ++ 40 :: bytes (joinWith ", " params) ++ 41 :: 32 ::
        bytes (renderBlock body) := by
  simp [Expr.render, Kind.name, Text.bytes_eq_flatMap, String.utf8EncodeChar]

theorem bytes_render_call :
    bytes (Expr.call callee args).render =
      bytes callee.render ++ 40 :: bytes (renderArgs args) ++ [41] := by
  simp [Expr.render, Text.bytes_eq_flatMap, String.utf8EncodeChar]

theorem bytes_renderArgs_cons :
    bytes (renderArgs (a :: a' :: args)) =
      bytes a.render ++ 44 :: 32 :: bytes (renderArgs (a' :: args)) := by
  simp [renderArgs, Text.bytes_eq_flatMap, String.utf8EncodeChar]

theorem bytes_joinWith_cons :
    bytes (joinWith ", " (p :: q :: params)) =
      bytes p ++ 44 :: 32 :: bytes (joinWith ", " (q :: params)) := by
  simp [joinWith, Text.bytes_eq_flatMap, String.utf8EncodeChar]

theorem bytes_render_bind :
    bytes (Stmt.bind name value).render =
      bytes Kind.kwLet.name ++ 32 :: bytes name ++ 32 :: 61 :: 32 :: bytes value.render ++
        [59] := by
  simp [Stmt.render, Kind.name, Text.bytes_eq_flatMap, String.utf8EncodeChar]

theorem bytes_render_ret_none :
    bytes (Stmt.ret none).render = bytes Kind.kwReturn.name ++ [59] := by
  simp [Stmt.render, Kind.name, Text.bytes_eq_flatMap, String.utf8EncodeChar]

theorem bytes_render_ret :
    bytes (Stmt.ret (some value)).render =
      bytes Kind.kwReturn.name ++ 32 :: bytes value.render ++ [59] := by
  simp [Stmt.render, Kind.name, Text.bytes_eq_flatMap, String.utf8EncodeChar]

theorem bytes_renderStmts_cons :
    bytes (renderStmts sep (s :: s' :: ss)) =
      bytes s.render ++ bytes sep ++ bytes (renderStmts sep (s' :: ss)) := by
  simp [renderStmts, Text.bytes_append]

theorem bytes_space : bytes " " = [32] := by
  simp [Text.bytes_eq_flatMap, String.utf8EncodeChar]

theorem bytes_renderBlock_nil : bytes (renderBlock []) = [123, 125] := by
  simp [renderBlock, Text.bytes_eq_flatMap, String.utf8EncodeChar]

theorem bytes_renderBlock_cons :
    bytes (renderBlock (s :: ss)) =
      123 :: 32 :: bytes (renderStmts " " (s :: ss)) ++ [32, 125] := by
  simp [renderBlock, Text.bytes_eq_flatMap, String.utf8EncodeChar]

end Bytes

/-! ## Printed text reads back as its kinds -/

namespace Token

open Text (bytes)

theorem Spells.block {ss : List Stmt}
    (inner : ∀ {after : List UInt8} {ks : List Kind}, Spells after ks → Apart after →
      Spells (bytes (renderStmts " " ss) ++ after) (stmtsKinds ss ++ ks))
    {after : List UInt8} {ks : List Kind} (rest : Spells after ks) :
    Spells (bytes (renderBlock ss) ++ after) (.lbrace :: stmtsKinds ss ++ .rbrace :: ks) := by
  cases ss with
  | nil =>
    rw [bytes_renderBlock_nil]
    exact Spells.delimiter rfl (by decide) (Spells.delimiter rfl (by decide) rest)
  | cons s ss =>
    rw [bytes_renderBlock_cons]
    simp only [List.cons_append, List.append_assoc]
    refine Spells.delimiter rfl (by decide)
      (Spells.blank (by decide) (inner ?_ (apart_blank (by decide) _)))
    exact Spells.blank (by decide) (Spells.delimiter rfl (by decide) rest)

theorem Spells.params (params : List String) (printable : ∀ k ∈ paramKinds params, k.scannable)
    {after : List UInt8} {ks : List Kind} (rest : Spells after ks) (apart : Apart after) :
    Spells (bytes (joinWith ", " params) ++ after) (paramKinds params ++ ks) := by
  match params, printable with
  | [], _ => simpa [joinWith, paramKinds, Text.bytes_eq_flatMap] using rest
  | [p], printable =>
    simp only [joinWith, paramKinds, List.singleton_append]
    exact rest.token
      (.name (printable (.ident p) (by simp [paramKinds])) fun c mem => (apart c mem).1)
  | p :: q :: params, printable =>
    rw [bytes_joinWith_cons]
    simp only [paramKinds, List.cons_append, List.append_assoc]
    refine Spells.token (.name (printable (.ident p) (by simp [paramKinds])) fun c mem => ?_)
      (Spells.delimiter rfl (by decide) (Spells.blank (by decide)
        (Spells.params (q :: params) (fun k mem => printable k ?_) rest apart)))
    · obtain rfl := Option.mem_some_iff.1 mem
      decide
    · simp only [paramKinds] at mem ⊢
      exact List.mem_cons_of_mem _ (List.mem_cons_of_mem _ mem)

theorem render_head : (e : Expr) → (∀ k ∈ e.kinds, k.scannable) →
    ∀ c ∈ (bytes e.render).head?, c ≠ 61
  | .ident name, printable => by
    obtain ⟨c, tail, first, notEq⟩ := (@Longest.name _
      (printable (.ident name) (by simp [Expr.kinds])) [] (by simp)).head_ne_eq (by simp) (by simp)
    simp [Expr.render, first, notEq]
  | .int v, printable => by
    obtain ⟨c, tail, first, notEq⟩ := (@Longest.literal _
      (by simpa [Expr.kinds, Kind.scannable] using printable) [] (by simp)).head_ne_eq
        (by simp) (by simp)
    rw [Expr.render, first]
    simpa using notEq
  | .bool b, _ => by
    obtain ⟨c, tail, first, notEq⟩ := (@Longest.keywordName
      (if b then .kwTrue else .kwFalse) (by cases b <;> rfl) [] (by simp)).head_ne_eq
      (by cases b <;> simp) (by cases b <;> simp)
    simp [bytes_render_bool, first, notEq]
  | .unop op arg, _ => by simp [bytes_render_unop]
  | .binop op l r, _ => by simp [bytes_render_binop]
  | .cond test t none, _ => by
    obtain ⟨c, tail, first, notEq⟩ :=
      (@Longest.keywordName .kwIf rfl [] (by simp)).head_ne_eq (by simp) (by simp)
    simp [bytes_render_cond, first, notEq]
  | .cond test t (some e), _ => by
    obtain ⟨c, tail, first, notEq⟩ :=
      (@Longest.keywordName .kwIf rfl [] (by simp)).head_ne_eq (by simp) (by simp)
    simp [bytes_render_cond_else, first, notEq]
  | .func params body, _ => by
    obtain ⟨c, tail, first, notEq⟩ :=
      (@Longest.keywordName .kwFn rfl [] (by simp)).head_ne_eq (by simp) (by simp)
    simp [bytes_render_func, first, notEq]
  | .call callee args, printable => by
    have head := render_head callee fun k mem => printable k (by simp [Expr.kinds, mem])
    rw [bytes_render_call, List.append_assoc, List.head?_append]
    cases first : (bytes callee.render).head? with
    | none => simp
    | some c => simpa using head c (by simp [first])

theorem unop_single {arg : Expr} (printable : ∀ k ∈ arg.kinds, k.scannable)
    (after : List UInt8) :
    (bytes arg.render ++ 41 :: after).head? ≠ some 61 := by
  rw [List.head?_append]
  cases first : (bytes arg.render).head? with
  | none => simp
  | some c => simpa using render_head arg printable c (by simp [first])

mutual

theorem Expr.spells_render : (e : Expr) → (∀ k ∈ e.kinds, k.scannable) →
    ∀ {after : List UInt8} {ks : List Kind}, Spells after ks → Apart after →
      Spells (bytes e.render ++ after) (e.kinds ++ ks)
  | .ident name, printable, _, _, rest, apart => by
    rw [Expr.render, Expr.kinds]
    exact rest.token (.name (printable (.ident name) (by simp [Expr.kinds]))
      fun c mem => (apart c mem).1)
  | .int v, printable, _, _, rest, apart => by
    rw [Expr.render, Expr.kinds]
    exact rest.token (.literal (by simpa [Expr.kinds, Kind.scannable] using printable)
      fun c mem => ⟨(apart c mem).2, (apart c mem).1⟩)
  | .bool b, _, _, _, rest, apart => by
    rw [bytes_render_bool, Expr.kinds]
    exact Spells.keyword (by cases b <;> rfl) apart rest
  | .unop op arg, printable, after, _, rest, _ => by
    have inner : ∀ k ∈ arg.kinds, k.scannable :=
      fun k mem => printable k (by simp [Expr.kinds, mem])
    rw [bytes_render_unop]
    simp only [Expr.kinds, List.cons_append, List.append_assoc, List.nil_append]
    exact Spells.delimiter rfl (by decide) (Spells.token (.unOp op (unop_single inner after))
      (Expr.spells_render arg inner (Spells.delimiter rfl (by decide) rest)
        (apart_cons (by decide) (by decide) _)))
  | .binop op l r, printable, _, _, rest, _ => by
    rw [bytes_render_binop]
    simp only [Expr.kinds, List.cons_append, List.append_assoc, List.nil_append]
    refine Spells.delimiter rfl (by decide) (Expr.spells_render l
      (fun k mem => printable k (by simp [Expr.kinds, mem])) ?_ (apart_blank (by decide) _))
    refine Spells.blank (by decide) (Spells.token (.binOp op _) (Spells.blank (by decide) ?_))
    exact Expr.spells_render r (fun k mem => printable k (by simp [Expr.kinds, mem]))
      (Spells.delimiter rfl (by decide) rest) (apart_cons (by decide) (by decide) _)
  | .cond test t none, printable, _, _, rest, _ => by
    rw [bytes_render_cond]
    simp only [Expr.kinds, List.cons_append, List.append_assoc, List.nil_append]
    refine Spells.keyword rfl (apart_blank (by decide) _) (Spells.blank (by decide)
      (Expr.spells_render test (fun k mem => printable k (by simp [Expr.kinds, mem])) ?_
        (apart_blank (by decide) _)))
    exact Spells.blank (by decide) (Spells.block (fun more apart =>
      stmts_spells_render " " bytes_space (by decide) t
        (fun k mem => printable k (by simp [Expr.kinds, mem])) more apart) rest)
  | .cond test t (some e), printable, _, _, rest, _ => by
    rw [bytes_render_cond_else]
    simp only [Expr.kinds, List.cons_append, List.append_assoc, List.nil_append]
    refine Spells.keyword rfl (apart_blank (by decide) _) (Spells.blank (by decide)
      (Expr.spells_render test (fun k mem => printable k (by simp [Expr.kinds, mem])) ?_
        (apart_blank (by decide) _)))
    refine Spells.blank (by decide) (Spells.block (fun more apart =>
      stmts_spells_render " " bytes_space (by decide) t
        (fun k mem => printable k (by simp [Expr.kinds, mem])) more apart) ?_)
    refine Spells.blank (by decide) (Spells.keyword rfl (apart_blank (by decide) _)
      (Spells.blank (by decide) ?_))
    exact Spells.block (fun more apart =>
      stmts_spells_render " " bytes_space (by decide) e
        (fun k mem => printable k (by simp [Expr.kinds, mem])) more apart) rest
  | .func params body, printable, _, _, rest, _ => by
    rw [bytes_render_func]
    simp only [Expr.kinds, List.cons_append, List.append_assoc, List.nil_append]
    refine Spells.keyword rfl (apart_cons (by decide) (by decide) _) (Spells.delimiter rfl
      (by decide) (Spells.params params (fun k mem => printable k (by simp [Expr.kinds, mem])) ?_
        (apart_cons (by decide) (by decide) _)))
    exact Spells.delimiter rfl (by decide) (Spells.blank (by decide) (Spells.block
      (fun more apart => stmts_spells_render " " bytes_space (by decide) body
        (fun k mem => printable k (by simp [Expr.kinds, mem])) more apart) rest))
  | .call callee args, printable, _, _, rest, _ => by
    rw [bytes_render_call]
    simp only [Expr.kinds, List.cons_append, List.append_assoc, List.nil_append]
    exact Expr.spells_render callee (fun k mem => printable k (by simp [Expr.kinds, mem]))
      (Spells.delimiter rfl (by decide) (args_spells_render args
        (fun k mem => printable k (by simp [Expr.kinds, mem]))
        (Spells.delimiter rfl (by decide) rest)
        (apart_cons (by decide) (by decide) _)))
      (apart_cons (by decide) (by decide) _)

theorem args_spells_render : (args : List Expr) → (∀ k ∈ argKinds args, k.scannable) →
    ∀ {after : List UInt8} {ks : List Kind}, Spells after ks → Apart after →
      Spells (bytes (renderArgs args) ++ after) (argKinds args ++ ks)
  | [], _, _, _, rest, _ => by simpa [renderArgs, argKinds, Text.bytes_eq_flatMap] using rest
  | [a], printable, _, _, rest, apart => by
    simp only [renderArgs, argKinds] at printable ⊢
    exact Expr.spells_render a printable rest apart
  | a :: a' :: args, printable, _, _, rest, apart => by
    rw [bytes_renderArgs_cons]
    simp only [argKinds, List.cons_append, List.append_assoc]
    exact Expr.spells_render a (fun k mem => printable k (by simp [argKinds, mem]))
      (Spells.delimiter rfl (by decide) (Spells.blank (by decide) (args_spells_render (a' :: args)
        (fun k mem => printable k (by simp only [argKinds] at mem ⊢; simp [mem])) rest apart)))
      (apart_cons (by decide) (by decide) _)

theorem Stmt.spells_render : (s : Stmt) → (∀ k ∈ s.kinds, k.scannable) →
    ∀ {after : List UInt8} {ks : List Kind}, Spells after ks → Apart after →
      Spells (bytes s.render ++ after) (s.kinds ++ ks)
  | .bind name value, printable, _, _, rest, _ => by
    rw [bytes_render_bind]
    simp only [Stmt.kinds, List.cons_append, List.append_assoc, List.nil_append]
    refine Spells.keyword rfl (apart_blank (by decide) _) (Spells.blank (by decide)
      (Spells.token (.name (printable (.ident name) (by simp [Stmt.kinds])) (by simp; decide))
        (Spells.blank (by decide) (Spells.assign (by simp) (Spells.blank (by decide) ?_)))))
    exact Expr.spells_render value (fun k mem => printable k (by simp [Stmt.kinds, mem]))
      (Spells.delimiter rfl (by decide) rest) (apart_cons (by decide) (by decide) _)
  | .ret none, _, _, _, rest, _ => by
    rw [bytes_render_ret_none]
    simp only [Stmt.kinds, List.cons_append, List.append_assoc, List.nil_append]
    exact Spells.keyword rfl (apart_cons (by decide) (by decide) _)
      (Spells.delimiter rfl (by decide) rest)
  | .ret (some value), printable, _, _, rest, _ => by
    rw [bytes_render_ret]
    simp only [Stmt.kinds, List.cons_append, List.append_assoc, List.nil_append]
    exact Spells.keyword rfl (apart_blank (by decide) _) (Spells.blank (by decide)
      (Expr.spells_render value (fun k mem => printable k (by simp [Stmt.kinds, mem]))
        (Spells.delimiter rfl (by decide) rest) (apart_cons (by decide) (by decide) _)))
  | .expr e, printable, _, _, rest, apart => by
    rw [Stmt.render, Stmt.kinds]
    exact Expr.spells_render e printable rest apart

theorem stmts_spells_render (sep : String) {c : UInt8} (spelt : bytes sep = [c])
    (blank : isBlank c) : (ss : List Stmt) → (∀ k ∈ stmtsKinds ss, k.scannable) →
    ∀ {after : List UInt8} {ks : List Kind}, Spells after ks → Apart after →
      Spells (bytes (renderStmts sep ss) ++ after) (stmtsKinds ss ++ ks)
  | [], _, _, _, rest, _ => by simpa [renderStmts, stmtsKinds, Text.bytes_eq_flatMap] using rest
  | [s], printable, _, _, rest, apart => by
    simp only [renderStmts, stmtsKinds, List.append_nil] at printable ⊢
    exact Stmt.spells_render s printable rest apart
  | s :: s' :: ss, printable, _, _, rest, apart => by
    rw [stmtsKinds] at printable
    rw [bytes_renderStmts_cons, spelt, stmtsKinds]
    simp only [List.append_assoc]
    exact Stmt.spells_render s (fun k mem => printable k (List.mem_append_left _ mem))
      (Spells.blank blank (stmts_spells_render sep spelt blank (s' :: ss)
        (fun k mem => printable k (List.mem_append_right _ mem)) rest apart))
      (apart_blank blank _)

end

end Token

theorem scan_render (p : Program) (printable : ∀ k ∈ p.kinds, k.scannable) :
    ∃ ts last, Token.scan (bytes p.render) = (ts, .ok last) ∧ ts.map Token.kind = p.kinds := by
  have spells := Token.stmts_spells_render "\n" (c := 10)
    (by simp [Text.bytes_eq_flatMap, String.utf8EncodeChar]) (by decide) p.stmts printable
    Token.Spells.nil Token.apart_nil
  rw [List.append_nil, List.append_nil] at spells
  obtain ⟨toks, reads, kinds⟩ := spells
  obtain ⟨ts, last, scanned, viewed, -⟩ := Token.scanFrom_of_reads reads Pos.start
  refine ⟨ts, last, scanned, ?_⟩
  rw [Program.kinds, ← kinds, ← viewed, List.map_map]
  rfl

end Monkey
