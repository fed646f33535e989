import Monkey.Token.Scan
import Mathlib

/-!
A successful scan splits its source into blanks and lexemes, and every lexeme is the longest
token at its place: `==` and `!=` are read whole, any other operator or delimiter is one byte, a
maximal run of letters is the keyword it spells or else an identifier named by it, a maximal run
of digits is the integer it denotes in decimal, and any other byte is illegal on its own.

`Token.Reads` states this reading of a source without reference to the scanner, and
`scan_splits_into_longest_tokens` says that the tokens of a successful scan are such a reading,
that the scan ends with the end-of-input token, and that the scanner's one-token-at-a-time
interface gives the same tokens and then the end-of-input token on every later call.

Conversely, `scanFrom_of_reads`: a source that reads as tokens scans into exactly those tokens,
since wherever a longest token starts, reading a token gives that one (`read_of_longest`).
-/

set_option autoImplicit false
set_option relaxedAutoImplicit false

namespace Monkey

namespace Token

/-- The characters a run of ASCII bytes spells. -/
def spelling (bs : List UInt8) : List Char := bs.map fun b => Char.ofNat b.toNat

namespace Kind

/-- The reserved words. -/
def isKeyword : Kind → Bool
  | kwFn | kwLet | kwTrue | kwFalse | kwIf | kwElse | kwReturn => true
  | _ => false

/-- The operators and delimiters written as one byte that a following `=` never extends. -/
def isDelimiter : Kind → Bool
  | plus | minus | star | slash | lt | gt | comma | semicolon | lparen | rparen | lbrace
  | rbrace => true
  | _ => false

end Kind

/-- The value of a run of decimal digits, the most significant first. -/
def decimal (ds : List UInt8) : Nat := Nat.ofDigits 10 (ds.reverse.map fun d => d.toNat - 48)

/-- The longest token at the start of a source: its kind, its lexeme, and the bytes after it. -/
inductive Longest : Kind → List UInt8 → List UInt8 → Prop
  | eq {after} : Longest .eq [61, 61] after
  | ne {after} : Longest .ne [33, 61] after
  | assign {after} : after.head? ≠ some 61 → Longest .assign [61] after
  | bang {after} : after.head? ≠ some 61 → Longest .bang [33] after
  | delimiter {k b after} : k.isDelimiter → k.name.toList = spelling [b] → Longest k [b] after
  | keyword {k w after} : w ≠ [] → (∀ c ∈ w, isLetter c) → (∀ c ∈ after.head?, ¬ isLetter c) →
      k.isKeyword → k.name.toList = spelling w → Longest k w after
  | ident {name w after} : w ≠ [] → (∀ c ∈ w, isLetter c) → (∀ c ∈ after.head?, ¬ isLetter c) →
      (∀ k : Kind, k.isKeyword → k.name.toList ≠ spelling w) → name.toList = spelling w →
      Longest (.ident name) w after
  | int {v ds after} : ds ≠ [] → (∀ c ∈ ds, isDigit c) →
      (∀ c ∈ after.head?, ¬ isDigit c ∧ ¬ isLetter c) → v.toInt = (decimal ds : Int) →
      Longest (.int v) ds after
  | illegal {b after} : ¬ isBlank b → ¬ isLetter b → ¬ isDigit b → b ≠ 61 → b ≠ 33 →
      (∀ k : Kind, k.isDelimiter → k.name.toList ≠ spelling [b]) → Longest .illegal [b] after

/-- A token's kind and lexeme. -/
def view (t : Token) : Kind × List UInt8 := (t.kind, t.lexeme)

/-- A source read as tokens: blanks, then the longest token there, and the rest read likewise,
until only blanks are left. The tokens are listed by kind and lexeme. -/
inductive Reads : List UInt8 → List (Kind × List UInt8) → Prop
  | blanks {w} : (∀ c ∈ w, isBlank c) → Reads w []
  | token {w lexeme after k ts} : (∀ c ∈ w, isBlank c) → Longest k lexeme after →
      Reads after ts → Reads (w ++ lexeme ++ after) ((k, lexeme) :: ts)

theorem toNat_ofNat_byte (b : UInt8) : (Char.ofNat b.toNat).toNat = b.toNat := by
  have small : b.toNat < 256 := b.toNat_lt
  rw [Char.ofNat, dif_pos (Or.inl (by omega))]
  simp [Char.ofNatAux, Char.toNat]

theorem digitsValue_eq_decimal (ds : List UInt8) : digitsValue ds = decimal ds := by
  induction ds using List.reverseRecOn with
  | nil => rfl
  | append_singleton ds d ih =>
    simp only [digitsValue, decimal, List.foldl_append, List.foldl_cons, List.foldl_nil,
      List.reverse_append, List.reverse_cons, List.reverse_nil, List.nil_append,
      List.cons_append, List.map_cons, Nat.ofDigits_cons] at ih ⊢
    rw [ih]
    ring

theorem ofWord_cases (s : String) :
    ((Kind.ofWord s).isKeyword ∧ (Kind.ofWord s).name = s) ∨
      (Kind.ofWord s = .ident s ∧ ∀ k : Kind, k.isKeyword → k.name ≠ s) := by
  unfold Kind.ofWord
  split_ifs <;> subst_vars
  all_goals try (left; exact ⟨rfl, rfl⟩)
  right
  refine ⟨rfl, fun k keyword named => ?_⟩
  cases k <;> simp_all [Kind.isKeyword, Kind.name]

theorem ofByte?_spec {b : UInt8} {k : Kind} (h : Kind.ofByte? b = some k) :
    k.isDelimiter ∧ k.name.toList = spelling [b] := by
  -- the table is a chain of byte tests; each test becomes one disjunct
  simp only [Kind.ofByte?, ite_eq_iff, Option.some.injEq, reduceCtorEq] at h
  repeat' rcases h with ⟨rfl, rfl⟩ | ⟨-, h⟩
  all_goals exact ⟨rfl, by simp [spelling, Kind.name]⟩

theorem ofByte?_of_delimiter {k : Kind} {b : UInt8} (delimiter : k.isDelimiter)
    (same : k.name.toList = spelling [b]) : Kind.ofByte? b = some k := by
  have code : b.toNat = (k.name.toList.headD ' ').toNat := by
    rw [same]
    simp [spelling, toNat_ofNat_byte]
  have byte : b = UInt8.ofNat (k.name.toList.headD ' ').toNat := by
    rw [← code, UInt8.ofNat_toNat]
  subst byte
  cases k <;> simp only [Kind.isDelimiter, Bool.false_eq_true] at delimiter <;>
    simp [Kind.name, Kind.ofByte?]

theorem head?_dropWhile_stops (p : UInt8 → Bool) (l : List UInt8) :
    ∀ c ∈ (l.dropWhile p).head?, ¬ p c := by
  intro c mem
  have stops := List.head?_dropWhile_not p l
  rw [Option.mem_def.mp mem] at stops
  simpa using stops

theorem mem_takeWhile_holds {p : UInt8 → Bool} {l : List UInt8} :
    ∀ c ∈ l.takeWhile p, p c := by
  have all := List.all_takeWhile (p := p) (l := l)
  rw [List.all_eq_true] at all
  exact all

private theorem startsWithLetter_eq_false {l : List UInt8} (h : startsWithLetter l = false) :
    ∀ c ∈ l.head?, ¬ isLetter c := by
  cases l with
  | nil => simp
  | cons c tail => simpa [startsWithLetter] using h

theorem Longest.word {w after : List UInt8} (nonempty : w ≠ []) (letters : ∀ c ∈ w, isLetter c)
    (stops : ∀ c ∈ after.head?, ¬ isLetter c) :
    Longest (Kind.ofWord (String.ofList (spelling w))) w after := by
  rcases ofWord_cases (String.ofList (spelling w)) with ⟨keyword, named⟩ | ⟨isIdent, unreserved⟩
  · exact .keyword nonempty letters stops keyword (by rw [named, String.toList_ofList])
  · rw [isIdent]
    refine .ident nonempty letters stops (fun k keyword same => unreserved k keyword ?_)
      String.toList_ofList
    rw [← same, String.ofList_toList]

theorem readPair_longest {b : UInt8} {rest : List UInt8} {long short k : Kind}
    {lexeme after : List UInt8} (h : readPair b rest long short = (k, lexeme, after)) :
    lexeme ++ after = b :: rest ∧
      ((k = long ∧ lexeme = [b, 61]) ∨ (k = short ∧ lexeme = [b] ∧ after.head? ≠ some 61)) := by
  unfold readPair at h
  split at h
  · cases h
    exact ⟨rfl, .inl ⟨rfl, rfl⟩⟩
  · rename_i noEq
    cases h
    refine ⟨rfl, .inr ⟨rfl, rfl, ?_⟩⟩
    cases rest with
    | nil => simp
    | cons c tail =>
      intro same
      exact noEq tail (by simp_all)

theorem read_longest {pos : Pos} {b : UInt8} {rest : List UInt8} {k : Kind}
    {lexeme after : List UInt8} (notBlank : isBlank b = false)
    (h : read pos b rest = .ok (k, lexeme, after)) :
    lexeme ++ after = b :: rest ∧ Longest k lexeme after := by
  unfold read at h
  by_cases eqSign : b = 61
  · rw [if_pos eqSign] at h
    subst eqSign
    obtain ⟨split, ⟨rfl, rfl⟩ | ⟨rfl, rfl, single⟩⟩ := readPair_longest (Except.ok.inj h)
    · exact ⟨split, .eq⟩
    · exact ⟨split, .assign single⟩
  rw [if_neg eqSign] at h
  by_cases bangSign : b = 33
  · rw [if_pos bangSign] at h
    subst bangSign
    obtain ⟨split, ⟨rfl, rfl⟩ | ⟨rfl, rfl, single⟩⟩ := readPair_longest (Except.ok.inj h)
    · exact ⟨split, .ne⟩
    · exact ⟨split, .bang single⟩
  rw [if_neg bangSign] at h
  split at h
  · rename_i k' byte
    cases h
    exact ⟨rfl, .delimiter (ofByte?_spec byte).1 (ofByte?_spec byte).2⟩
  rename_i noByte
  by_cases letter : isLetter b
  · rw [if_pos letter] at h
    simp only [Except.ok.injEq, Prod.mk.injEq] at h
    obtain ⟨rfl, rfl, rfl⟩ := h
    refine ⟨by simp, .word (List.cons_ne_nil _ _) ?_ (head?_dropWhile_stops _ _)⟩
    intro c mem
    rcases List.mem_cons.mp mem with rfl | inRun
    · exact letter
    · exact mem_takeWhile_holds c inRun
  rw [if_neg letter] at h
  by_cases digit : isDigit b
  · rw [if_pos digit] at h
    simp only at h
    split at h
    · cases h
    rename_i noLetter
    split at h
    · rename_i fits
      simp only [Except.ok.injEq, Prod.mk.injEq] at h
      obtain ⟨rfl, rfl, rfl⟩ := h
      refine ⟨by simp, .int (List.cons_ne_nil _ _) ?_ ?_ ?_⟩
      · intro c mem
        rcases List.mem_cons.mp mem with rfl | inRun
        · exact digit
        · exact mem_takeWhile_holds c inRun
      · intro c mem
        exact ⟨head?_dropWhile_stops _ _ c mem,
          startsWithLetter_eq_false (by simpa using noLetter) c mem⟩
      · rw [Int32.toInt_ofNat_of_lt (by unfold intMax at fits; omega), digitsValue_eq_decimal]
    · cases h
  rw [if_neg digit] at h
  cases h
  refine ⟨rfl, .illegal (by simpa using notBlank) letter digit eqSign bangSign ?_⟩
  intro k delimiter same
  rw [ofByte?_of_delimiter delimiter same] at noByte
  cases noByte

theorem scanFrom_reads {pos : Pos} {bs : List UInt8} {ts : List Token} {last : Token}
    (h : scanFrom pos bs = (ts, .ok last)) : Reads bs (ts.map view) ∧ last.kind = .eof := by
  fun_induction scanFrom pos bs generalizing ts last with
  | case1 pos bs allBlank =>
    cases h
    exact ⟨.blanks (List.dropWhile_eq_nil_iff.mp allBlank), rfl⟩
  | case2 => cases h
  | case3 pos bs b rest leading start k lexeme after read_ok _ ts' last' tail =>
    rename_i ih
    cases h
    have notBlank : isBlank b = false := by
      simpa using head?_dropWhile_stops isBlank bs b (by rw [leading]; rfl)
    obtain ⟨split, longest⟩ := read_longest notBlank read_ok
    obtain ⟨reads, eof⟩ := ih tail
    -- the blanks skipped, the lexeme and the bytes after it make up the source
    have source : bs = bs.takeWhile isBlank ++ lexeme ++ after := by
      rw [List.append_assoc, split, ← leading, List.takeWhile_append_dropWhile]
    rw [source]
    exact ⟨.token mem_takeWhile_holds longest reads, eof⟩

theorem Longest.real {k : Kind} {lexeme after : List UInt8} (longest : Longest k lexeme after) :
    k ≠ .eof := by
  cases longest with
  | delimiter delimiter _ => rintro rfl; cases delimiter
  | keyword _ _ _ keyword _ => rintro rfl; cases keyword
  | _ => exact Kind.noConfusion

theorem Reads.real {bs : List UInt8} {toks : List (Kind × List UInt8)} (reads : Reads bs toks) :
    ∀ t ∈ toks, t.1 ≠ .eof := by
  induction reads with
  | blanks _ => simp
  | token _ longest _ ih =>
    intro t mem
    rcases List.mem_cons.1 mem with rfl | mem
    · exact longest.real
    · exact ih t mem

theorem scan_real {src : List UInt8} {ts : List Token} {last : Token}
    (scanned : scan src = (ts, .ok last)) : ∀ t ∈ ts, t.kind ≠ .eof :=
  fun t mem => (scanFrom_reads scanned).1.real (view t) (List.mem_map_of_mem mem)

theorem ofByte?_of_word {b : UInt8} (word : (isLetter b || isDigit b || isBlank b) = true) :
    Kind.ofByte? b = none := by
  simp only [Kind.ofByte?, ite_eq_iff, reduceCtorEq, and_false, false_or, and_true]
  repeat' apply And.intro
  all_goals rintro rfl; revert word; decide

theorem isLetter_of_isDigit {c : UInt8} (digit : isDigit c) : isLetter c = false := by
  simp only [isDigit, Bool.and_eq_true, decide_eq_true_eq, UInt8.le_iff_toNat_le] at digit
  simp only [isLetter, Bool.or_eq_false_iff, Bool.and_eq_false_iff, decide_eq_false_iff_not,
    UInt8.le_iff_toNat_le, ← UInt8.toNat_inj]
  simp at digit ⊢
  omega

theorem isBlank_of_word {c : UInt8} (word : (isLetter c || isDigit c) = true) :
    isBlank c = false := by
  simp only [isLetter, isDigit, Bool.or_eq_true, Bool.and_eq_true, decide_eq_true_eq,
    UInt8.le_iff_toNat_le, ← UInt8.toNat_inj] at word
  simp only [isBlank, Bool.or_eq_false_iff, decide_eq_false_iff_not, ← UInt8.toNat_inj]
  simp at word ⊢
  omega

theorem keyword_ofWord {k : Kind} (keyword : k.isKeyword) : Kind.ofWord k.name = k := by
  cases k <;> first | rfl | cases keyword

theorem takeWhile_run {p : UInt8 → Bool} {w after : List UInt8} (run : ∀ c ∈ w, p c)
    (stops : ∀ c ∈ after.head?, ¬ p c) :
    (w ++ after).takeWhile p = w ∧ (w ++ after).dropWhile p = after := by
  induction w with
  | nil =>
    cases after with
    | nil => simp
    | cons c rest =>
      have stop : p c = false := by simpa using stops c rfl
      simp [stop]
  | cons c w ih =>
    have first : p c = true := run c (List.mem_cons_self ..)
    obtain ⟨taken, dropped⟩ := ih fun c' mem => run c' (List.mem_cons_of_mem _ mem)
    simp [first, taken, dropped]

theorem read_word (pos : Pos) {c : UInt8} {w after : List UInt8}
    (letters : ∀ c' ∈ c :: w, isLetter c') (stops : ∀ c' ∈ after.head?, ¬ isLetter c') :
    read pos c (w ++ after) =
      .ok (Kind.ofWord (String.ofList (spelling (c :: w))), c :: w, after) := by
  have letter := letters c (List.mem_cons_self ..)
  obtain ⟨taken, dropped⟩ :=
    takeWhile_run (fun c' mem => letters c' (List.mem_cons_of_mem _ mem)) stops
  have notEq : c ≠ 61 := fun same => by subst same; revert letter; decide
  have notBang : c ≠ 33 := fun same => by subst same; revert letter; decide
  simp only [read, notEq, notBang, if_false, ofByte?_of_word (b := c) (by simp [letter]), letter,
    if_true, taken, dropped]
  rfl

theorem read_of_longest {k : Kind} {lexeme after : List UInt8} (longest : Longest k lexeme after)
    (pos : Pos) {b : UInt8} {rest : List UInt8} (split : lexeme ++ after = b :: rest) :
    read pos b rest = .ok (k, lexeme, after) := by
  cases longest with
  | eq =>
    cases split
    simp [read, readPair]
  | ne =>
    cases split
    simp [read, readPair]
  | assign single =>
    cases split
    cases after with
    | nil => simp [read, readPair]
    | cons c tail => simp_all [read, readPair]
  | bang single =>
    cases split
    cases after with
    | nil => simp [read, readPair]
    | cons c tail => simp_all [read, readPair]
  | delimiter delimiter named =>
    cases split
    have byte := ofByte?_of_delimiter delimiter named
    have notEq : b ≠ 61 := fun same => by subst same; cases byte
    have notBang : b ≠ 33 := fun same => by subst same; cases byte
    simp [read, notEq, notBang, byte]
  | keyword nonempty letters stops keyword named =>
    obtain ⟨c, w, rfl⟩ := List.exists_cons_of_ne_nil nonempty
    simp only [List.cons_append, List.cons.injEq] at split
    rw [← split.1, ← split.2, read_word pos letters stops, ← named, String.ofList_toList,
      keyword_ofWord keyword]
  | @ident name w after nonempty letters stops unreserved named =>
    obtain ⟨c, w, rfl⟩ := List.exists_cons_of_ne_nil nonempty
    simp only [List.cons_append, List.cons.injEq] at split
    rw [← split.1, ← split.2, read_word pos letters stops, ← named, String.ofList_toList]
    rcases ofWord_cases name with ⟨keyword, spelt⟩ | ⟨isIdent, -⟩
    · exact absurd (by rw [spelt, named]) (unreserved _ keyword)
    · rw [isIdent]
  | @int v ds after nonempty digits stops value =>
    obtain ⟨c, w, rfl⟩ := List.exists_cons_of_ne_nil nonempty
    simp only [List.cons_append, List.cons.injEq] at split
    rw [← split.1, ← split.2]
    have digit := digits c (List.mem_cons_self ..)
    obtain ⟨taken, dropped⟩ :=
      takeWhile_run (fun c' mem => digits c' (List.mem_cons_of_mem _ mem))
        fun c' mem => (stops c' mem).1
    have notEq : c ≠ 61 := fun same => by subst same; revert digit; decide
    have notBang : c ≠ 33 := fun same => by subst same; revert digit; decide
    have notLetter := isLetter_of_isDigit digit
    have noLetter : startsWithLetter after = false := by
      cases after with
      | nil => rfl
      | cons a tail => simpa [startsWithLetter] using (stops a rfl).2
    have bound := v.toInt_lt
    have fits : digitsValue (c :: w) ≤ intMax := by
      rw [digitsValue_eq_decimal, intMax]
      omega
    have same : Int32.ofNat (digitsValue (c :: w)) = v := by
      rw [← Int32.toInt_inj, value,
        Int32.toInt_ofNat_of_lt (by rw [digitsValue_eq_decimal]; omega), digitsValue_eq_decimal]
    simp only [read, notEq, notBang, ofByte?_of_word (b := c) (by simp [digit]), notLetter,
      digit, taken, dropped, noLetter, fits, same, Bool.false_eq_true, ↓reduceIte]
  | illegal notBlank notLetter notDigit notEq notBang undelimited =>
    cases split
    have byte : Kind.ofByte? b = none := by
      cases found : Kind.ofByte? b with
      | none => rfl
      | some k' =>
        obtain ⟨delimiter, named⟩ := ofByte?_spec found
        exact absurd named (undelimited k' delimiter)
    simp [read, notEq, notBang, byte, notLetter, notDigit]


theorem Longest.head {k : Kind} {lexeme after : List UInt8} (longest : Longest k lexeme after) :
    ∃ b rest, lexeme = b :: rest ∧ isBlank b = false := by
  cases longest with
  | eq | ne | assign | bang => exact ⟨_, _, rfl, by decide⟩
  | @delimiter k b after delimiter named =>
    refine ⟨b, [], rfl, ?_⟩
    cases blank : isBlank b
    · rfl
    · have none := ofByte?_of_word (b := b) (by simp [blank])
      rw [ofByte?_of_delimiter delimiter named] at none
      cases none
  | keyword nonempty letters | ident nonempty letters =>
    obtain ⟨c, w, rfl⟩ := List.exists_cons_of_ne_nil nonempty
    exact ⟨c, w, rfl, isBlank_of_word (by simp [letters c (List.mem_cons_self ..)])⟩
  | int nonempty digits =>
    obtain ⟨c, w, rfl⟩ := List.exists_cons_of_ne_nil nonempty
    exact ⟨c, w, rfl, isBlank_of_word (by simp [digits c (List.mem_cons_self ..)])⟩
  | illegal notBlank => exact ⟨_, _, rfl, by simpa using notBlank⟩


theorem dropWhile_blanks {w lexeme : List UInt8} (blanks : ∀ c ∈ w, isBlank c) {b : UInt8}
    {rest : List UInt8} (first : lexeme = b :: rest) (notBlank : isBlank b = false)
    (after : List UInt8) :
    (w ++ lexeme ++ after).takeWhile isBlank = w ∧
      (w ++ lexeme ++ after).dropWhile isBlank = lexeme ++ after := by
  subst first
  rw [List.append_assoc]
  exact takeWhile_run blanks (by simp [notBlank])

theorem scanFrom_of_reads {bs : List UInt8} {toks : List (Kind × List UInt8)}
    (reads : Reads bs toks) (pos : Pos) :
    ∃ ts last, scanFrom pos bs = (ts, .ok last) ∧ ts.map view = toks ∧ last.kind = .eof := by
  induction reads generalizing pos with
  | @blanks w allBlank =>
    rw [scanFrom]
    split
    · exact ⟨[], _, rfl, rfl, rfl⟩
    · rename_i b rest leading
      rw [List.dropWhile_eq_nil_iff.2 allBlank] at leading
      cases leading
  | @token w lexeme after k toks blanks longest rest ih =>
    obtain ⟨b, tail, first, notBlank⟩ := longest.head
    obtain ⟨-, dropped⟩ := dropWhile_blanks blanks first notBlank after
    rw [scanFrom]
    split
    · rename_i leading
      rw [dropped, first] at leading
      cases leading
    · rename_i b' rest' leading
      rw [dropped] at leading
      -- the token starts past the blanks before it
      set start := pos.advanceAll ((w ++ lexeme ++ after).takeWhile isBlank)
      have readOk := read_of_longest longest start leading
      obtain ⟨ts, last, scanned, viewed, eof⟩ := ih (start.advanceAll lexeme)
      refine ⟨⟨k, lexeme, start⟩ :: ts, last, ?_, by simp [view, viewed], eof⟩
      dsimp only
      split
      · rename_i e failed
        rw [readOk] at failed
        cases failed
      · rename_i k' lexeme' after' succeeded
        rw [readOk] at succeeded
        cases succeeded
        rw [scanned]

end Token

namespace Lexer

/-- The results of `n` calls of `next` in a row. -/
def calls : Nat → Lexer → List (Except LexError Token)
  | 0, _ => []
  | n + 1, lx => lx.next.1 :: calls n lx.next.2

theorem calls_atEnd (n : Nat) (pos : Pos) :
    calls n { rest := [], pos } = List.replicate n (.ok (Token.eofAt pos)) := by
  induction n with
  | zero => rfl
  | succ n ih =>
    have step : next { rest := [], pos } = (.ok (Token.eofAt pos), { rest := [], pos }) := by
      simp [next, Token.skipBlanks, Pos.advanceAll]
    simp only [calls, List.replicate_succ]
    rw [step, ih]

theorem calls_scanFrom {pos : Pos} {bs : List UInt8} {ts : List Token} {last : Token}
    (h : Token.scanFrom pos bs = (ts, .ok last)) (n : Nat) :
    calls (ts.length + 1 + n) { rest := bs, pos } =
      ts.map .ok ++ List.replicate (n + 1) (.ok last) := by
  fun_induction Token.scanFrom pos bs generalizing ts last with
  | case1 pos bs allBlank =>
    cases h
    have step : next { rest := bs, pos } =
        (.ok (Token.eofAt (pos.advanceAll (bs.takeWhile Token.isBlank))),
          { rest := [], pos := pos.advanceAll (bs.takeWhile Token.isBlank) }) := by
      simp [next, Token.skipBlanks, allBlank]
    rw [show [].length + 1 + n = n + 1 by simp; omega]
    simp only [calls, step, calls_atEnd, List.map_nil, List.nil_append, List.replicate_succ]
  | case2 => cases h
  | case3 pos bs b rest leading start k lexeme after read_ok _ ts' last' tail =>
    rename_i ih
    cases h
    have step : next { rest := bs, pos } = (.ok ⟨k, lexeme, start⟩,
        { rest := after, pos := start.advanceAll lexeme }) := by
      simp [next, Token.skipBlanks, leading, read_ok, start]
    rw [show (⟨k, lexeme, start⟩ :: ts').length + 1 + n = ts'.length + 1 + n + 1 by simp; omega]
    simp only [calls, step, ih tail, List.map_cons, List.cons_append]

end Lexer

/-- A successful scan splits the source into blanks and the lexemes of its tokens, each the
longest token at its place; it ends with the end-of-input token; and a scanner asked for one
token at a time gives the same tokens, then the end-of-input token on every later call. -/
theorem scan_splits_into_longest_tokens (src : List UInt8) (ts : List Token) (last : Token)
    (scanned : Token.scan src = (ts, .ok last)) :
    Token.Reads src (ts.map Token.view) ∧ last.kind = .eof ∧
      ∀ n, (Lexer.ofBytes src).calls (ts.length + 1 + n) =
        ts.map .ok ++ List.replicate (n + 1) (.ok last) := by
  obtain ⟨reads, eof⟩ := Token.scanFrom_reads scanned
  exact ⟨reads, eof, Lexer.calls_scanFrom scanned⟩

/-- `a==1!=!2=3` reads as `a`, `==`, `1`, `!=`, `!`, `2`, `=`, `3`: each `=` after `=` or `!` is
taken into the token before it, and no other. -/
theorem scan_splits_operator_run :
    Token.scan [97, 61, 61, 49, 33, 61, 33, 50, 61, 51] =
        ([⟨.ident "a", [97], ⟨1, 0⟩⟩, ⟨.eq, [61, 61], ⟨1, 1⟩⟩, ⟨.int 1, [49], ⟨1, 3⟩⟩,
          ⟨.ne, [33, 61], ⟨1, 4⟩⟩, ⟨.bang, [33], ⟨1, 6⟩⟩, ⟨.int 2, [50], ⟨1, 7⟩⟩,
          ⟨.assign, [61], ⟨1, 8⟩⟩, ⟨.int 3, [51], ⟨1, 9⟩⟩], .ok ⟨.eof, [], ⟨1, 10⟩⟩) ∧
      Token.Reads [97, 61, 61, 49, 33, 61, 33, 50, 61, 51]
          [(.ident "a", [97]), (.eq, [61, 61]), (.int 1, [49]), (.ne, [33, 61]), (.bang, [33]),
            (.int 2, [50]), (.assign, [61]), (.int 3, [51])] := by
  have scanned : Token.scan [97, 61, 61, 49, 33, 61, 33, 50, 61, 51] =
      ([⟨.ident "a", [97], ⟨1, 0⟩⟩, ⟨.eq, [61, 61], ⟨1, 1⟩⟩, ⟨.int 1, [49], ⟨1, 3⟩⟩,
        ⟨.ne, [33, 61], ⟨1, 4⟩⟩, ⟨.bang, [33], ⟨1, 6⟩⟩, ⟨.int 2, [50], ⟨1, 7⟩⟩,
        ⟨.assign, [61], ⟨1, 8⟩⟩, ⟨.int 3, [51], ⟨1, 9⟩⟩], .ok ⟨.eof, [], ⟨1, 10⟩⟩) := by
    cbv
  exact ⟨scanned, (scan_splits_into_longest_tokens _ _ _ scanned).1⟩

end Monkey
