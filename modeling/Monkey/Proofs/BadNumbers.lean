import Monkey.Proofs.Lexing

/-!
# Where scanning fails

Scanning fails only at a run of digits that is no integer literal: a run followed by a letter, or
one naming a value past the largest 32-bit integer. Every maximal run of digits starts a token,
since identifiers are runs of letters alone and no other token holds a digit, so scanning meets
the runs of a source in order and fails at the first bad one: at the place of its first digit,
with a fault that names the run and the letter after it, or the run alone.

`Token.BadRun pre run post` says that `run` is a maximal run of digits of `pre ++ run ++ post`
and a bad one, and `Token.FirstBadRun` that no bad run starts before it. The blanks and the token
at the start of a source hold no bad run and no part of one (`Token.BadRun.past_token`), so past
them a source has the first bad run of what follows (`Token.firstBadRun_after_token`), and
scanning fails exactly with the error of the first bad run (`Token.scanFrom_error_iff`). Asked
for one token at a time, the scanner gives the tokens before it, then that error on every later
call (`Lexer.calls_scanFrom_error`).
-/

set_option autoImplicit false
set_option relaxedAutoImplicit false

namespace Monkey

namespace Token

/-- `run` is a maximal run of digits of the source `pre ++ run ++ post`. -/
structure DigitRun (pre run post : List UInt8) : Prop where
  nonempty : run ≠ []
  digits : ∀ c ∈ run, isDigit c
  opens : ∀ c ∈ pre.getLast?, ¬ isDigit c
  closes : ∀ c ∈ post.head?, ¬ isDigit c

/-- A maximal run of digits that no integer literal can be: a letter follows it, or it names a
value past the largest 32-bit integer. -/
structure BadRun (pre run post : List UInt8) : Prop extends DigitRun pre run post where
  bad : startsWithLetter post ∨ intMax < decimal run

/-- The first bad run of digits of a source: no bad run starts before it. -/
structure FirstBadRun (src pre run post : List UInt8) : Prop where
  split : src = pre ++ run ++ post
  badRun : BadRun pre run post
  first : ∀ pre' run' post', src = pre' ++ run' ++ post' → BadRun pre' run' post' →
    pre.length ≤ pre'.length

/-- What is wrong with a bad run of digits: a letter after it, named with the run, or a value
too large, named by the run. -/
def badRunFault (run post : List UInt8) : LexFault :=
  if startsWithLetter post then .letterAfterDigits (run ++ post.take 1) else .overflow run

/-! ## Runs of digits -/

theorem DigitRun.head {pre run post : List UInt8} (digitRun : DigitRun pre run post) :
    ∃ c rest, run = c :: rest ∧ isDigit c := by
  obtain ⟨c, rest, rfl⟩ := List.exists_cons_of_ne_nil digitRun.nonempty
  exact ⟨c, rest, rfl, digitRun.digits c (List.mem_cons_self ..)⟩

theorem DigitRun.unique {pre pre' run run' post post' : List UInt8}
    (first : DigitRun pre run post) (second : DigitRun pre' run' post')
    (same : run ++ post = run' ++ post') : run = run' ∧ post = post' := by
  obtain ⟨taken, dropped⟩ := takeWhile_run first.digits first.closes
  obtain ⟨taken', dropped'⟩ := takeWhile_run second.digits second.closes
  rw [same] at taken dropped
  exact ⟨taken.symm.trans taken', dropped.symm.trans dropped'⟩

theorem not_digit_of_blank {c : UInt8} (blank : isBlank c) : ¬ isDigit c := fun digit => by
  rw [isBlank_of_word (by simp [digit])] at blank
  cases blank

theorem DigitRun.past_blanks {w rest pre run post : List UInt8} (blanks : ∀ c ∈ w, isBlank c)
    (digitRun : DigitRun pre run post) (split : pre ++ run ++ post = w ++ rest) :
    ∃ skipped, pre = w ++ skipped ∧ rest = skipped ++ run ++ post := by
  rw [List.append_assoc] at split
  rcases List.append_eq_append_iff.mp split with ⟨a, blanksRun, runRest⟩ | ⟨c, grown, tail⟩
  · -- the blanks would end inside the run, whose first byte is a digit
    cases a with
    | nil => exact ⟨[], by simpa using blanksRun.symm, by simpa using runRest.symm⟩
    | cons c a =>
      obtain ⟨d, run', rfl, digit⟩ := digitRun.head
      simp only [List.cons_append, List.cons.injEq] at runRest
      rw [runRest.1] at digit
      exact absurd digit (not_digit_of_blank (blanks c (by simp [blanksRun])))
  · exact ⟨c, grown, by simp [tail]⟩

/-! ## Tokens hold no bad run -/

theorem Longest.digit_cases {k : Kind} {lexeme after : List UInt8}
    (longest : Longest k lexeme after) :
    (∀ c ∈ lexeme, ¬ isDigit c) ∨
      (DigitRun [] lexeme after ∧ startsWithLetter after = false ∧ decimal lexeme ≤ intMax) := by
  cases longest with
  | eq | ne | assign | bang => left; simp [isDigit]
  | @delimiter k b after delimiter named =>
    left
    intro c mem digit
    rw [List.mem_singleton.mp mem] at digit
    have none := ofByte?_of_word (b := b) (by simp [digit])
    rw [ofByte?_of_delimiter delimiter named] at none
    cases none
  | keyword _ letters | ident _ letters =>
    left
    intro c mem digit
    exact absurd (letters c mem) (by simp [isLetter_of_isDigit digit])
  | @int v ds after nonempty digits stops value =>
    right
    have bound := v.toInt_lt
    refine ⟨⟨nonempty, digits, by simp, fun c mem => (stops c mem).1⟩, ?_, ?_⟩
    · cases after with
      | nil => rfl
      | cons a tail => simpa [startsWithLetter] using (stops a rfl).2
    · rw [intMax]
      omega
  | illegal _ _ notDigit =>
    left
    intro c mem
    rw [List.mem_singleton.mp mem]
    exact notDigit

theorem BadRun.past_token {w lexeme after pre run post : List UInt8} {k : Kind}
    (blanks : ∀ c ∈ w, isBlank c) (longest : Longest k lexeme after)
    (badRun : BadRun pre run post) (split : pre ++ run ++ post = w ++ lexeme ++ after) :
    ∃ p, pre = w ++ lexeme ++ p ∧ after = p ++ run ++ post := by
  rw [List.append_assoc w] at split
  obtain ⟨skipped, rfl, rest⟩ := badRun.past_blanks blanks split
  rw [List.append_assoc] at rest
  rcases List.append_eq_append_iff.mp rest with ⟨p, rfl, tail⟩ | ⟨c, lexemeSplit, runRest⟩
  · exact ⟨p, by simp, by simp [tail]⟩
  · -- the run would start inside the lexeme, so the lexeme holds a digit
    cases c with
    | nil =>
      rw [List.append_nil] at lexemeSplit
      exact ⟨[], by simp [lexemeSplit], by simpa using runRest.symm⟩
    | cons d c =>
      obtain ⟨r, run', runSplit, digit⟩ := badRun.head
      have first : r = d := by
        rw [runSplit] at runRest
        exact (List.cons.inj runRest).1
      rcases longest.digit_cases with noDigit | ⟨literal, noLetter, fits⟩
      · exact absurd (first ▸ digit) (noDigit d (by simp [lexemeSplit]))
      by_cases empty : skipped = []
      · -- the run is the literal itself, which is no bad run
        subst empty
        rw [List.nil_append] at lexemeSplit
        rw [← lexemeSplit] at runRest
        obtain ⟨rfl, rfl⟩ := badRun.unique literal runRest
        rcases badRun.bad with letter | tooLarge
        · rw [noLetter] at letter
          cases letter
        · omega
      · -- the digit before the run would belong to it
        have inLexeme : skipped.getLast empty ∈ lexeme := by
          rw [lexemeSplit]
          exact List.mem_append_left _ (List.getLast_mem empty)
        have last : (w ++ skipped).getLast? = some (skipped.getLast empty) := by
          rw [List.getLast?_append_of_ne_nil _ empty, List.getLast?_eq_some_getLast empty]
        exact absurd (literal.digits _ inLexeme) (badRun.opens _ (by rw [last]; rfl))

theorem DigitRun.after_token {w lexeme after p run post : List UInt8} {k : Kind}
    (longest : Longest k lexeme after) (digitRun : DigitRun p run post)
    (split : after = p ++ run ++ post) : ∀ c ∈ (w ++ lexeme ++ p).getLast?, ¬ isDigit c := by
  intro c mem digit
  cases p with
  | cons a p => exact digitRun.opens c (by simpa [List.getLast?_append] using mem) digit
  | nil =>
    obtain ⟨b, tail, rfl, -⟩ := longest.head
    rw [List.append_nil, List.getLast?_append_of_ne_nil _ (List.cons_ne_nil _ _)] at mem
    rcases longest.digit_cases with noDigit | ⟨literal, -, -⟩
    · exact noDigit c (List.mem_of_getLast? mem) digit
    · -- a literal is followed by no digit, yet the run follows it
      obtain ⟨d, run', rfl, first⟩ := digitRun.head
      exact literal.closes d (by simp [split]) first

theorem badRun_after_token {w lexeme after p run post : List UInt8} {k : Kind}
    (longest : Longest k lexeme after) (split : after = p ++ run ++ post) :
    BadRun (w ++ lexeme ++ p) run post ↔ BadRun p run post := by
  constructor
  · intro badRun
    refine ⟨⟨badRun.nonempty, badRun.digits, fun c mem => ?_, badRun.closes⟩, badRun.bad⟩
    exact badRun.opens c (by simp [List.getLast?_append, Option.mem_def.mp mem])
  · intro badRun
    exact ⟨⟨badRun.nonempty, badRun.digits, badRun.after_token longest split, badRun.closes⟩,
      badRun.bad⟩

theorem firstBadRun_after_token {w lexeme after pre run post : List UInt8} {k : Kind}
    (blanks : ∀ c ∈ w, isBlank c) (longest : Longest k lexeme after) :
    FirstBadRun (w ++ lexeme ++ after) pre run post ↔
      ∃ p, pre = w ++ lexeme ++ p ∧ FirstBadRun after p run post := by
  constructor
  · rintro ⟨split, badRun, first⟩
    obtain ⟨p, rfl, rest⟩ := badRun.past_token blanks longest split.symm
    refine ⟨p, rfl, rest, (badRun_after_token longest rest).mp badRun,
      fun p' run' post' split' badRun' => ?_⟩
    have earlier := first (w ++ lexeme ++ p') run' post' (by simp [split'])
      ((badRun_after_token longest split').mpr badRun')
    simp only [List.length_append] at earlier
    omega
  · rintro ⟨p, rfl, split, badRun, first⟩
    refine ⟨by simp [split], (badRun_after_token longest split).mpr badRun,
      fun pre' run' post' split' badRun' => ?_⟩
    obtain ⟨p', rfl, rest⟩ := badRun'.past_token blanks longest split'.symm
    have earlier := first p' run' post' rest ((badRun_after_token longest rest).mp badRun')
    simp only [List.length_append]
    omega

theorem FirstBadRun.unique {src pre pre' run run' post post' : List UInt8}
    (first : FirstBadRun src pre run post) (second : FirstBadRun src pre' run' post') :
    pre = pre' ∧ run = run' ∧ post = post' := by
  have sameLength : pre.length = pre'.length :=
    Nat.le_antisymm (first.first _ _ _ second.split second.badRun)
      (second.first _ _ _ first.split first.badRun)
  have split := first.split.symm.trans second.split
  rw [List.append_assoc, List.append_assoc] at split
  obtain ⟨rfl, rest⟩ := List.append_inj split sameLength
  exact ⟨rfl, first.badRun.unique second.badRun.toDigitRun rest⟩

theorem FirstBadRun.exists {src : List UInt8}
    (some : ∃ pre run post, src = pre ++ run ++ post ∧ BadRun pre run post) :
    ∃ pre run post, FirstBadRun src pre run post := by
  classical
  have lengths : ∃ n, ∃ pre run post,
      src = pre ++ run ++ post ∧ BadRun pre run post ∧ pre.length = n := by
    obtain ⟨pre, run, post, split, badRun⟩ := some
    exact ⟨_, pre, run, post, split, badRun, rfl⟩
  obtain ⟨pre, run, post, split, badRun, shortest⟩ := Nat.find_spec lengths
  refine ⟨pre, run, post, split, badRun, fun pre' run' post' split' badRun' => ?_⟩
  rw [shortest]
  exact Nat.find_min' lengths ⟨pre', run', post', split', badRun', rfl⟩

/-! ## Scanning -/

theorem Pos.advanceAll_append (p : Pos) (a b : List UInt8) :
    p.advanceAll (a ++ b) = (p.advanceAll a).advanceAll b :=
  List.foldl_append ..

theorem read_error {pos : Pos} {b : UInt8} {rest : List UInt8} {e : LexError}
    (failed : read pos b rest = .error e) :
    BadRun [] (b :: rest.takeWhile isDigit) (rest.dropWhile isDigit) ∧
      e = ⟨pos, badRunFault (b :: rest.takeWhile isDigit) (rest.dropWhile isDigit)⟩ := by
  unfold read at failed
  by_cases eqSign : b = 61
  · rw [if_pos eqSign] at failed
    cases failed
  rw [if_neg eqSign] at failed
  by_cases bangSign : b = 33
  · rw [if_pos bangSign] at failed
    cases failed
  rw [if_neg bangSign] at failed
  split at failed
  · cases failed
  by_cases letter : isLetter b
  · rw [if_pos letter] at failed
    cases failed
  rw [if_neg letter] at failed
  by_cases digit : isDigit b
  swap
  · rw [if_neg digit] at failed
    cases failed
  rw [if_pos digit] at failed
  have digitRun : DigitRun [] (b :: rest.takeWhile isDigit) (rest.dropWhile isDigit) := by
    refine ⟨List.cons_ne_nil _ _, fun c mem => ?_, by simp, head?_dropWhile_stops _ _⟩
    rcases List.mem_cons.mp mem with rfl | inRun
    · exact digit
    · exact mem_takeWhile_holds c inRun
  simp only at failed
  split at failed
  · rename_i letterAfter
    cases failed
    exact ⟨⟨digitRun, .inl letterAfter⟩, by simp [badRunFault, letterAfter]⟩
  · rename_i noLetter
    split at failed
    · cases failed
    · rename_i tooLarge
      cases failed
      refine ⟨⟨digitRun, .inr ?_⟩, by simp [badRunFault, noLetter]⟩
      rw [← digitsValue_eq_decimal]
      omega

theorem scanFrom_error_iff (pos : Pos) (bs : List UInt8) (e : LexError) :
    (scanFrom pos bs).2 = .error e ↔ ∃ pre run post,
      FirstBadRun bs pre run post ∧ e = ⟨pos.advanceAll pre, badRunFault run post⟩ := by
  fun_induction scanFrom pos bs with
  | case1 pos bs allBlank =>
    have blanks := List.dropWhile_eq_nil_iff.mp allBlank
    refine ⟨fun failed => (by cases failed), ?_⟩
    rintro ⟨pre, run, post, first, -⟩
    obtain ⟨c, rest, rfl, digit⟩ := first.badRun.head
    exact (not_digit_of_blank (blanks c (by rw [first.split]; simp)) digit).elim
  | case2 pos bs b rest leading start e₀ failed =>
    obtain ⟨badRun, rfl⟩ := read_error failed
    have blanks : ∀ c ∈ bs.takeWhile isBlank, isBlank c := mem_takeWhile_holds
    have source : bs = bs.takeWhile isBlank ++ (b :: rest.takeWhile isDigit) ++
        rest.dropWhile isDigit := by
      rw [List.append_assoc, List.cons_append, List.takeWhile_append_dropWhile, ← leading,
        List.takeWhile_append_dropWhile]
    -- the run at `b` is the first bad run: none starts among the blanks before it
    have firstRun : FirstBadRun bs (bs.takeWhile isBlank) (b :: rest.takeWhile isDigit)
        (rest.dropWhile isDigit) := by
      refine ⟨source, ⟨⟨badRun.nonempty, badRun.digits, fun c last => ?_, badRun.closes⟩,
        badRun.bad⟩, fun pre' run' post' split' badRun' => ?_⟩
      · exact not_digit_of_blank (blanks c (List.mem_of_getLast? last))
      · have whole := List.takeWhile_append_dropWhile (p := isBlank) (l := bs)
        obtain ⟨skipped, rfl, -⟩ :=
          badRun'.past_blanks blanks (split'.symm.trans whole.symm)
        simp
    refine ⟨fun failed => ?_, ?_⟩
    · cases failed
      exact ⟨_, _, _, firstRun, rfl⟩
    · rintro ⟨pre, run, post, first, rfl⟩
      obtain ⟨rfl, rfl, rfl⟩ := firstRun.unique first
      rfl
  | case3 pos bs b rest leading start k lexeme after read_ok _ ts' last' tail =>
    rename_i ih
    rw [tail] at ih
    have notBlank : isBlank b = false := by
      simpa using head?_dropWhile_stops isBlank bs b (by rw [leading]; rfl)
    obtain ⟨split, longest⟩ := read_longest notBlank read_ok
    have blanks : ∀ c ∈ bs.takeWhile isBlank, isBlank c := mem_takeWhile_holds
    have source : bs = bs.takeWhile isBlank ++ lexeme ++ after := by
      rw [List.append_assoc, split, ← leading, List.takeWhile_append_dropWhile]
    -- past the token, the first bad run of the source is the first bad run of the rest
    refine ih.trans ⟨?_, ?_⟩
    · rintro ⟨p, run, post, first, rfl⟩
      refine ⟨bs.takeWhile isBlank ++ lexeme ++ p, run, post, ?_, ?_⟩
      · have shifted := (firstBadRun_after_token blanks longest).mpr ⟨p, rfl, first⟩
        rwa [← source] at shifted
      · simp [start, Pos.advanceAll_append]
    · rintro ⟨pre, run, post, first, rfl⟩
      rw [source] at first
      obtain ⟨p, rfl, first'⟩ := (firstBadRun_after_token blanks longest).mp first
      exact ⟨p, run, post, first', by simp [start, Pos.advanceAll_append]⟩

/-! ## Messages -/

theorem message_letterAfterDigits (text : List UInt8) :
    (LexFault.letterAfterDigits text).message =
      "invalid integer literal " ++ Text.Quoted.debug text :=
  rfl

theorem message_overflow (digits : List UInt8) :
    (LexFault.overflow digits).message =
      "integer literal " ++ Text.ofBytesLossy digits ++ " overflows int32" :=
  rfl

theorem decode_ascii {bs : List UInt8} (ascii : ∀ c ∈ bs, c < 0x80) :
    Text.Utf8.decode bs = (spelling bs).map .char := by
  induction bs with
  | nil => simp [Text.Utf8.decode, spelling]
  | cons b bs ih =>
    have small := ascii b (List.mem_cons_self ..)
    have read : Text.Utf8.readChar (b :: bs) = some (Char.ofNat b.toNat, bs) := by
      simp [Text.Utf8.readChar, small]
    rw [Text.Utf8.decode]
    split
    · rename_i c rest readOk
      rw [read] at readOk
      cases readOk
      simp [spelling, ih fun c mem => ascii c (List.mem_cons_of_mem _ mem)]
    · rename_i noChar
      rw [read] at noChar
      cases noChar

theorem plain_code {b : UInt8} (plain : (isLetter b || isDigit b) = true) :
    48 ≤ b.toNat ∧ b.toNat ≤ 122 ∧ b.toNat ≠ 92 := by
  simp only [isLetter, isDigit, Bool.or_eq_true, Bool.and_eq_true, decide_eq_true_eq,
    UInt8.le_iff_toNat_le, ← UInt8.toNat_inj] at plain
  simp at plain
  omega

theorem debugPiece_plain {b : UInt8} (plain : (isLetter b || isDigit b) = true) :
    Text.Quoted.debugPiece (.char (Char.ofNat b.toNat)) = [Char.ofNat b.toNat] := by
  have code := toNat_ofNat_byte b
  obtain ⟨low, high, notBackslash⟩ := plain_code plain
  have notQuote : Char.ofNat b.toNat ≠ '"' := fun same => by
    have codes := congrArg Char.toNat same
    rw [code] at codes
    simp at codes
    omega
  have notBack : Char.ofNat b.toNat ≠ '\\' := fun same => by
    have codes := congrArg Char.toNat same
    rw [code] at codes
    simp at codes
    omega
  have printable : Text.isPrintable (Char.ofNat b.toNat) = true := by
    unfold Text.isPrintable
    simp only [code]
    rw [if_pos (by omega)]
    simp only [Bool.and_eq_true, decide_eq_true_eq]
    omega
  simp [Text.Quoted.debugPiece, notQuote, notBack, printable]

theorem debug_plain {bs : List UInt8} (plain : ∀ c ∈ bs, (isLetter c || isDigit c) = true) :
    Text.Quoted.debug bs = String.ofList ('"' :: spelling bs ++ ['"']) := by
  have ascii : ∀ c ∈ bs, c < 0x80 := fun c mem => by
    have := plain_code (plain c mem)
    rw [UInt8.lt_iff_toNat_lt]
    simp
    omega
  have pieces :
      (spelling bs).flatMap (fun c => Text.Quoted.debugPiece (.char c)) = spelling bs := by
    induction bs with
    | nil => rfl
    | cons b bs ih =>
      simp only [spelling, List.map_cons, List.flatMap_cons] at ih ⊢
      rw [debugPiece_plain (plain b (List.mem_cons_self ..)),
        ih (fun c mem => plain c (List.mem_cons_of_mem _ mem))
          (fun c mem => ascii c (List.mem_cons_of_mem _ mem))]
      rfl
  simp only [Text.Quoted.debug, decode_ascii ascii, List.flatMap_map, pieces, List.cons_append]

theorem ofBytesLossy_digits {bs : List UInt8} (digits : ∀ c ∈ bs, isDigit c) :
    Text.ofBytesLossy bs = String.ofList (spelling bs) := by
  have ascii : ∀ c ∈ bs, c < 0x80 := fun c mem => by
    have := plain_code (b := c) (by simp [digits c mem])
    rw [UInt8.lt_iff_toNat_lt]
    simp
    omega
  simp [Text.ofBytesLossy, decode_ascii ascii, Function.comp_def]

theorem BadRun.message {pre run post : List UInt8} (badRun : BadRun pre run post) :
    (badRunFault run post).message =
      if startsWithLetter post then
        "invalid integer literal " ++ String.ofList ('"' :: spelling (run ++ post.take 1) ++ ['"'])
      else "integer literal " ++ String.ofList (spelling run) ++ " overflows int32" := by
  by_cases letter : startsWithLetter post = true
  · have plain : ∀ c ∈ run ++ post.take 1, (isLetter c || isDigit c) = true := by
      intro c mem
      rcases List.mem_append.mp mem with inRun | next
      · simp [badRun.digits c inRun]
      · cases post with
        | nil => cases next
        | cons d rest =>
          simp only [List.take_succ_cons, List.take_zero, List.mem_singleton] at next
          subst next
          have letterAfter : isLetter c := by simpa [startsWithLetter] using letter
          simp [letterAfter]
    rw [badRunFault, if_pos letter, if_pos letter, message_letterAfterDigits, debug_plain plain]
  · rw [badRunFault, if_neg letter, if_neg letter, message_overflow,
      ofBytesLossy_digits badRun.digits]

end Token

namespace Lexer

theorem calls_fault (n : Nat) (lx : Lexer) {e : LexError} (fault : lx.fault = some e) :
    calls n lx = List.replicate n (.error e) := by
  induction n with
  | zero => rfl
  | succ n ih =>
    have step : next lx = (.error e, lx) := by simp [next, fault]
    rw [calls, step, ih, List.replicate_succ]

theorem calls_scanFrom_error {pos : Pos} {bs : List UInt8} {ts : List Token} {e : LexError}
    (h : Token.scanFrom pos bs = (ts, .error e)) (n : Nat) :
    calls (ts.length + 1 + n) { rest := bs, pos } =
      ts.map .ok ++ List.replicate (n + 1) (.error e) := by
  fun_induction Token.scanFrom pos bs generalizing ts with
  | case1 => cases h
  | case2 pos bs b rest leading start e₀ =>
    rename_i failed
    cases h
    have step : next { rest := bs, pos } = (.error e, { rest := bs, pos, fault := some e }) := by
      simp only [start] at failed
      simp [next, Token.skipBlanks, leading, failed]
    rw [show [].length + 1 + n = n + 1 by simp; omega]
    simp only [calls, step, calls_fault n { rest := bs, pos, fault := some e } rfl, List.map_nil,
      List.nil_append, List.replicate_succ]
  | case3 pos bs b rest leading start k lexeme after read_ok _ ts' last' tail =>
    rename_i ih
    cases h
    have step : next { rest := bs, pos } = (.ok ⟨k, lexeme, start⟩,
        { rest := after, pos := start.advanceAll lexeme }) := by
      simp [next, Token.skipBlanks, leading, read_ok, start]
    rw [show (⟨k, lexeme, start⟩ :: ts').length + 1 + n = ts'.length + 1 + n + 1 by simp; omega]
    simp only [calls, step, ih tail, List.map_cons, List.cons_append]

end Lexer

end Monkey
