import Monkey.Proofs.LexicalErrors

/-!
# Where an error's snippet points

Every error a parse reports has a place in its source: a lexical error the first digit of its bad
run, a syntax error the token it was met at, which the scanner placed where the token's text
begins, and the very end for the end of input. The snippet of the error takes that place as it is:
its line is one of the source's lines, so nothing is clamped; the line shown is the one holding
the place; and the caret line right under it puts its caret at the place's column
(`parse_errors_point_at_their_tokens`).

The caret line has a fixed gutter of seven bytes, while the numbered line shows its number in a
field four wide. A number of five digits widens that field, so from line 10000 on the caret
stands left of the token it points at (`caret_gutter_fits_iff`,
`caret_misses_line_ten_thousand`).

`Located src t` says that a token stands in the source where its place says. Scanned tokens are
located (`Token.scanFrom_located`), and so is every token a parse over a scan that ended without a
lexical error holds or records an error at (`Parser.Sited`, kept by every parse step).
`Text.splitLines_around` finds the line holding a place.
-/

set_option autoImplicit false
set_option relaxedAutoImplicit false

namespace Monkey

open Text (bytes)

namespace Text

/-- The bytes of the line before a place: those after the last line feed before it. -/
def lineBefore (pre : List UInt8) : List UInt8 := (pre.reverse.takeWhile (· != 10)).reverse

theorem splitLines_eq_cons (bs : List UInt8) :
    splitLines bs = bs.takeWhile (· != 10) :: (splitLines bs).tail := by
  induction bs with
  | nil => rfl
  | cons b rest ih =>
    rw [splitLines, ih]
    by_cases feed : b = 10
    · subst feed
      simp
    · simp [feed]

theorem splitLines_cons (b : UInt8) (rest : List UInt8) :
    splitLines (b :: rest) = if b = 10 then [] :: splitLines rest
      else (b :: rest.takeWhile (· != 10)) :: (splitLines rest).tail := by
  rw [splitLines, splitLines_eq_cons rest]
  rfl

theorem splitLines_around (pre rest : List UInt8) :
    ∃ above, splitLines (pre ++ rest) =
      above ++ (lineBefore pre ++ rest.takeWhile (· != 10)) :: (splitLines rest).tail ∧
      above.length = pre.count 10 := by
  -- from the right end of `pre`, each byte moved onto the rest either closes a line or joins it
  induction pre using List.reverseRecOn generalizing rest with
  | nil => exact ⟨[], by simpa [lineBefore] using splitLines_eq_cons rest, rfl⟩
  | append_singleton pre b ih =>
    obtain ⟨above, split, lines⟩ := ih (b :: rest)
    rw [List.append_assoc, List.singleton_append, split, splitLines_cons]
    by_cases feed : b = 10
    · subst feed
      refine ⟨above ++ [lineBefore pre], ?_, by simp [lines]⟩
      simp only [lineBefore, if_pos]
      simpa using splitLines_eq_cons rest
    · refine ⟨above, ?_, by simp [lines, feed]⟩
      simp [lineBefore, feed]

theorem bytes_spaces (n : Nat) :
    bytes (String.ofList (List.replicate n ' ')) = List.replicate n 32 := by
  rw [bytes_eq_flatMap, String.toList_ofList]
  induction n with
  | zero => rfl
  | succ n ih => simp [List.replicate_succ, ih, String.utf8EncodeChar]

theorem length_bytes_of_ascii (s : String) (ascii : ∀ c ∈ s.toList, c.val ≤ 127) :
    (bytes s).length = s.length := by
  rw [bytes_eq_flatMap, List.length_flatMap, ← String.length_toList]
  have ones : s.toList.map (fun c => (String.utf8EncodeChar c).length) = s.toList.map fun _ => 1 :=
    List.map_congr_left fun c mem => by
      rw [String.length_utf8EncodeChar]
      exact Char.utf8Size_eq_one_iff.2 (ascii c mem)
  rw [ones]
  simp

theorem length_bytes_padNat (width n : Nat) :
    (bytes (padNat width n)).length = max width (toString n).length := by
  have digits : ∀ c ∈ (toString n).toList, c.val ≤ 127 := by
    intro c mem
    have decimal : c ∈ Nat.toDigits 10 n := by simpa using mem
    have digit := Nat.isDigit_of_mem_toDigits (by decide) (by decide) decimal
    simp only [Char.isDigit, Bool.and_eq_true, decide_eq_true_eq] at digit
    have nine := UInt32.le_iff_toNat_le.1 digit.2
    exact UInt32.le_iff_toNat_le.2 (by simp at nine ⊢; omega)
  rw [padNat, bytes_append, List.length_append, bytes_spaces, List.length_replicate,
    length_bytes_of_ascii _ digits]
  omega

theorem snippet_within (src : List UInt8) (label name msg : String) {line : Nat} (col : Nat)
    (first : 1 ≤ line) (last : line ≤ (splitLines src).length) :
    ∃ front back, snippet src label name line (col + 1) msg =
      front ++ numberedLine line ((splitLines src).getD (line - 1) []) ++
        (bytes "     | " ++ List.replicate col 32 ++ [94, 10]) ++ back := by
  have clamped : min (max line 1) (splitLines src).length = line := by omega
  have column : max (col + 1) 1 - 1 = col := by omega
  have caretLine : bytes ("     | " ++ String.ofList (List.replicate col ' ') ++ "^\n") =
      bytes "     | " ++ List.replicate col 32 ++ [94, 10] := by
    rw [bytes_append, bytes_append, bytes_spaces]
    simp [bytes_eq_flatMap, String.utf8EncodeChar]
  unfold snippet
  simp only [clamped, column]
  rw [caretLine]
  exact ⟨_, _, rfl⟩

end Text

/-- A token stands in `src` where its place says: its text follows the bytes before that place,
and an end of input stands at the very end. -/
def Located (src : List UInt8) (t : Token) : Prop :=
  ∃ pre post, src = pre ++ t.lexeme ++ post ∧ t.pos = Pos.start.advanceAll pre ∧
    (t.kind = .eof → post = [])

namespace Token

theorem scanFrom_located (pos : Pos) (bs : List UInt8) (w : List UInt8)
    (start : pos = Pos.start.advanceAll w) :
    (∀ t ∈ (scanFrom pos bs).1, Located (w ++ bs) t) ∧
      ∀ t, (scanFrom pos bs).2 = .ok t → Located (w ++ bs) t := by
  fun_induction scanFrom pos bs generalizing w with
  | case1 pos bs allBlank =>
    refine ⟨by simp, fun t ended => ⟨w ++ bs, [], ?_⟩⟩
    cases ended
    have blanks : bs.takeWhile isBlank = bs := by
      simpa [allBlank] using List.takeWhile_append_dropWhile (p := isBlank) (l := bs)
    simp [eofAt, start, blanks, Pos.advanceAll_append]
  | case2 => simp
  | case3 pos bs b rest leading start' k lexeme after read_ok _ ts' last' tail ih =>
    have notBlank : isBlank b = false := by
      simpa using head?_dropWhile_stops isBlank bs b (by rw [leading]; rfl)
    obtain ⟨split, longest⟩ := read_longest notBlank read_ok
    have source : w ++ bs = (w ++ bs.takeWhile isBlank) ++ lexeme ++ after := by
      rw [List.append_assoc, List.append_assoc, split, ← leading,
        List.takeWhile_append_dropWhile]
    have placed : start' = Pos.start.advanceAll (w ++ bs.takeWhile isBlank) := by
      simp [start', start, Pos.advanceAll_append]
    obtain ⟨tokens, ending⟩ := ih (w ++ bs.takeWhile isBlank ++ lexeme)
      (by rw [placed]; simp only [Pos.advanceAll_append])
    rw [tail, show w ++ bs.takeWhile isBlank ++ lexeme ++ after = w ++ bs from source.symm]
      at tokens ending
    refine ⟨fun t mem => ?_, ending⟩
    rcases List.mem_cons.1 mem with rfl | mem
    · exact ⟨_, after, source, placed, fun ended => absurd ended longest.real⟩
    · exact tokens t mem

end Token

namespace Parser

/-- A parser over a scan that ended without a lexical error, all of whose tokens stand in `src`
where their places say: those in view, those still to read, the end of input, and those its
errors were recorded at. -/
structure Sited (src : List UInt8) (p : Parser) : Prop where
  scannable : p.Scannable
  noLexError : p.lexError = none
  ending : ∃ t, p.ending = .ok t ∧ Located src t
  inView : ∀ t ∈ p.cur :: p.peek :: p.pending, Located src t
  errors : ∀ e ∈ p.errors.toList, Located src e.token

theorem Sited.advance_of {src : List UInt8} {p : Parser} (scannable : p.Scannable)
    (noLexError : p.lexError = none) (ending : ∃ t, p.ending = .ok t ∧ Located src t)
    (ahead : ∀ t ∈ p.peek :: p.pending, Located src t)
    (errors : ∀ e ∈ p.errors.toList, Located src e.token) : p.advance.Sited src := by
  obtain ⟨last, ended, placed⟩ := ending
  -- with no lexical error to meet, moving on brings in a scanned token or the end of input
  have step : ∃ t, Located src t ∧
      p.advance = { p with cur := p.peek, peek := t, pending := p.pending.tail } := by
    rcases advance_cases p with ⟨met, _⟩ | ⟨_, t, rest, pending, step⟩ |
        ⟨_, pending, t, ended', step⟩ | ⟨_, _, e, failed, _⟩
    · simp [noLexError] at met
    · exact ⟨t, ahead t (by simp [pending]), by simp [step, pending]⟩
    · rw [ended] at ended'
      cases ended'
      exact ⟨last, placed, by simp [step, pending]⟩
    · rw [ended] at failed
      cases failed
  obtain ⟨t, located, step⟩ := step
  refine ⟨scannable.advance, by rw [step]; exact noLexError,
    by rw [step]; exact ⟨last, ended, placed⟩, ?_, by rw [errors_advance]; exact errors⟩
  rw [step]
  intro t' mem
  simp only [List.mem_cons] at mem
  rcases mem with rfl | rfl | later
  · exact ahead _ (by simp)
  · exact located
  · exact ahead t' (List.mem_cons_of_mem _ (List.mem_of_mem_tail later))

theorem Sited.advance {src : List UInt8} {p : Parser} (sited : p.Sited src) :
    p.advance.Sited src :=
  Sited.advance_of sited.scannable sited.noLexError sited.ending
    (fun t mem => sited.inView t (List.mem_cons_of_mem _ mem)) sited.errors

/-- An error recorded at a token some located parser had in view is located too. -/
instance (src : List UInt8) : Parse.Tracked (Sited src) where
  scannable sited := sited.scannable
  advance sited := sited.advance
  record e seen sited := by
    obtain ⟨q, held, shown⟩ := seen
    refine ⟨sited.scannable, sited.noLexError, sited.ending, sited.inView, fun e' mem => ?_⟩
    simp only [Array.toList_push, List.mem_append, List.mem_singleton] at mem
    rcases mem with old | rfl
    · exact sited.errors e' old
    · rcases shown with same | same <;> rw [← same] <;> exact held.inView _ (by simp)

theorem sited_ofScan {src : List UInt8} {last : Token} (scanned : (Token.scan src).2 = .ok last)
    (limit : Nat) : (ofScan (Token.scan src) limit).Sited src := by
  obtain ⟨tokens, ending⟩ := Token.scanFrom_located Pos.start src [] rfl
  rw [List.nil_append] at tokens ending
  obtain ⟨scannableTokens, scannableEnding⟩ := Token.scanFrom_scannable Pos.start src
  unfold ofScan
  refine Sited.advance_of (Scannable.advance (scannable_of (eofAt_scannable _)
    (eofAt_scannable _) scannableTokens scannableEnding)) ?_
    ⟨last, by simpa using scanned, ending last scanned⟩ ?_ (by simp)
  · unfold Token.scan at scanned
    cases first : (Token.scanFrom Pos.start src).1 <;>
      simp [Parser.advance, Token.scan, first, scanned]
  · unfold Token.scan at scanned
    cases first : (Token.scanFrom Pos.start src).1 with
    | nil =>
      simpa [Parser.advance, Token.scan, first, scanned] using ending last scanned
    | cons t rest =>
      rw [first] at tokens
      simpa [Parser.advance, Token.scan, first] using tokens

theorem finish_syntactic {p : Parser} {stmts : List Stmt} {errors : List SyntaxError}
    (noLexError : p.lexError = none) (finished : p.finish stmts = .error (.syntactic errors)) :
    errors = p.errors.toList := by
  unfold finish at finished
  rw [noLexError] at finished
  dsimp only at finished
  split at finished
  · cases finished
  · cases finished
    rfl

end Parser

open Monkey.Parser Monkey.Parse in
theorem parseWith_errors_located {limit : Nat} {src : List UInt8} {errors : List SyntaxError}
    (parsed : Program.parseWith limit src = .error (.syntactic errors)) :
    ∀ e ∈ errors, Located src e.token := by
  -- a scan that failed would make the parse fail with its lexical error instead
  cases scanned : (Token.scan src).2 with
  | error e =>
    obtain ⟨recorded, lexical⟩ := (parseWith_lexical_iff limit src e).2 scanned
    rw [lexical] at parsed
    cases parsed
  | ok last =>
    obtain ⟨stmts, finished⟩ := parseWith_finish limit src
    have kept := ((program_keeps #[] rfl (ofScan (Token.scan src) limit).rounds).at
      (sited_ofScan scanned limit)).1
    rw [finished] at parsed
    rw [finish_syntactic kept.noLexError parsed]
    exact kept.errors

theorem caret_gutter_fits_iff (line : Nat) :
    (bytes (Text.padNat 4 line ++ " | ")).length = (bytes "     | ").length ↔ line < 10000 := by
  have bar : (bytes " | ").length = 3 := by simp [Text.bytes_eq_flatMap, String.utf8EncodeChar]
  have gutter : (bytes "     | ").length = 7 := by
    simp [Text.bytes_eq_flatMap, String.utf8EncodeChar]
  have digits : line.repr.length ≤ 4 ↔ line < 10000 := Nat.length_repr_le_iff (by decide)
  rw [Text.bytes_append, List.length_append, Text.length_bytes_padNat, bar, gutter,
    Nat.toString_eq_repr]
  omega

/-- The snippet `shown` points at the place `pos` of `src`, where `lead` begins and `post` follows
it: the place is the line and column of the byte after some `pre`, that line is a line of the
source and holds the bytes around the place, and the snippet shows it, numbered, with the caret
line right under it and the caret after as many spaces as the place's column. -/
def Points (src : List UInt8) (pos : Pos) (lead post shown : List UInt8) : Prop :=
  ∃ pre, src = pre ++ lead ++ post ∧ pos = ⟨pre.count 10 + 1, (Text.lineBefore pre).length⟩ ∧
    pos.line ≤ (Text.splitLines src).length ∧
    (Text.splitLines src).getD (pos.line - 1) [] =
      Text.lineBefore pre ++ (lead ++ post).takeWhile (· != 10) ∧
    ∃ front back, shown = front ++
      Text.numberedLine pos.line (Text.lineBefore pre ++ (lead ++ post).takeWhile (· != 10)) ++
      (bytes "     | " ++ List.replicate pos.col 32 ++ [94, 10]) ++ back

theorem points_of_split {src pre lead post : List UInt8} (split : src = pre ++ lead ++ post)
    (label name msg : String) :
    Points src (Pos.start.advanceAll pre) lead post
      (Text.snippet src label name (Pos.start.advanceAll pre).line
        ((Pos.start.advanceAll pre).col + 1) msg) := by
  have place : Pos.start.advanceAll pre = ⟨pre.count 10 + 1, (Text.lineBefore pre).length⟩ := by
    rw [Pos.start_advanceAll, Text.lineBefore, List.length_reverse]
  obtain ⟨above, lines, count⟩ := Text.splitLines_around pre (lead ++ post)
  rw [← List.append_assoc, ← split] at lines
  -- the place's line is the one after the lines above it, which the line feeds of `pre` close
  have last : pre.count 10 + 1 ≤ (Text.splitLines src).length := by
    rw [lines]
    simp [count]
  have shownLine : (Text.splitLines src).getD (pre.count 10 + 1 - 1) [] =
      Text.lineBefore pre ++ (lead ++ post).takeWhile (· != 10) := by
    rw [lines, Nat.add_sub_cancel, ← count]
    simp
  obtain ⟨front, back, shown⟩ :=
    Text.snippet_within src label name msg (Text.lineBefore pre).length (by omega) last
  rw [place]
  refine ⟨pre, split, rfl, last, shownLine, front, back, ?_⟩
  dsimp only
  rw [shown, shownLine]

/-- Every error a parse reports has a snippet that points at its offending text: the first digit
of the bad run for a lexical error, the token a syntax error was met at, and the very end for the
end of input. Its line is a line of the source, the snippet shows that line with the caret line
right under it, and the caret stands under the token's first byte exactly while the line number
fits in four places. -/
theorem parse_errors_point_at_their_tokens (src : List UInt8) (name : String) :
    (∀ e recorded, Program.parse src = .error (.lexical e recorded) →
      ∃ run post, run ≠ [] ∧ (∀ c ∈ run, Token.isDigit c) ∧
        Points src e.pos run post (e.pretty name src) ∧
        ((bytes (Text.padNat 4 e.pos.line ++ " | ")).length + e.pos.col =
            (bytes "     | ").length + e.pos.col ↔ e.pos.line < 10000)) ∧
    ∀ errors, Program.parse src = .error (.syntactic errors) → ∀ e ∈ errors,
      ∃ post, Points src e.pos e.token.lexeme post (e.pretty name src) ∧ (e.atEnd → post = []) ∧
        ((bytes (Text.padNat 4 e.pos.line ++ " | ")).length + e.pos.col =
            (bytes "     | ").length + e.pos.col ↔ e.pos.line < 10000) := by
  have aligned (pos : Pos) : (bytes (Text.padNat 4 pos.line ++ " | ")).length + pos.col =
      (bytes "     | ").length + pos.col ↔ pos.line < 10000 := by
    rw [Nat.add_right_cancel_iff]
    exact caret_gutter_fits_iff pos.line
  refine ⟨fun e recorded parsed => ?_, fun errors parsed e mem => ?_⟩
  · -- a lexical error is that of the first bad run, placed at its first digit
    obtain ⟨pre, run, post, first, rfl⟩ := (Token.scanFrom_error_iff Pos.start src e).1
      ((parseWith_lexical_iff _ src e).1 ⟨recorded, parsed⟩)
    exact ⟨run, post, first.badRun.nonempty, first.badRun.digits,
      points_of_split first.split _ _ _, aligned _⟩
  · -- a syntax error was recorded at a token standing where its place says
    obtain ⟨pre, post, split, place, ended⟩ := parseWith_errors_located parsed e mem
    refine ⟨post, ?_, fun atEnd => ended (by simpa [SyntaxError.atEnd] using atEnd), aligned _⟩
    have shown := points_of_split split "PARSE ERROR" name e.detail
    rw [← place] at shown
    exact shown

theorem Token.scan_feeds_rparen (n : Nat) :
    Token.scan (List.replicate n 10 ++ [41]) =
      ([⟨.rparen, [41], ⟨n + 1, 0⟩⟩], .ok (Token.eofAt ⟨n + 1, 1⟩)) := by
  have blanks : (List.replicate n (10 : UInt8) ++ [41]).takeWhile Token.isBlank =
        List.replicate n 10 ∧
      (List.replicate n (10 : UInt8) ++ [41]).dropWhile Token.isBlank = [41] :=
    Token.takeWhile_run (by simp [Token.isBlank]) (by simp [Token.isBlank])
  have start :
      Pos.start.advanceAll ((List.replicate n (10 : UInt8) ++ [41]).takeWhile Token.isBlank) =
        ⟨n + 1, 0⟩ := by
    rw [blanks.1, Pos.start_advanceAll]
    simp
  have read : Token.read ⟨n + 1, 0⟩ 41 [] = .ok (.rparen, [41], []) := by
    simp [Token.read, Token.Kind.ofByte?]
  unfold Token.scan
  rw [Token.scanFrom]
  split
  · rename_i leading
    rw [blanks.2] at leading
    cases leading
  · rename_i b rest leading
    rw [blanks.2, List.cons.injEq] at leading
    obtain ⟨rfl, rfl⟩ := leading
    dsimp only
    split
    · rename_i e failed
      rw [start, read] at failed
      cases failed
    · rename_i k lexeme after succeeded
      rw [start, read] at succeeded
      cases succeeded
      simp only [start]
      simp [Token.scanFrom_nil, Pos.advanceAll, Pos.advance]

open Monkey.Parse in
theorem parseWith_lone_rparen {src : List UInt8} {tok last : Token}
    (scanned : Token.scan src = ([tok], .ok last)) (rparen : tok.kind = .rparen)
    (ended : last.kind = .eof) (b : Nat) :
    Program.parseWith (b + 1) src = .error (.syntactic [⟨tok, .expected .expression⟩]) := by
  let p0 : Parser := ⟨tok, last, [], .ok last, none, #[], b + 1⟩
  let p1 : Parser := { p0 with errors := #[⟨tok, .expected .expression⟩] }
  have start : Parser.ofScan (Token.scan src) (b + 1) = p0 := by
    rw [scanned]
    rfl
  have operandFails : (operand b 0).run p0 = .error .failed p1 := by
    rw [operand.eq_1, run_bind_ok (current_run p0)]
    simp only [p0, rparen]
    rfl
  have expressionFails : (expression (b + 1) 0 0).run p0 = .error .failed p1 := by
    rw [expression.eq_2, run_bind_error operandFails]
  have statementDropped : (statement (b + 1) 0).run p0 = .ok none p1 := by
    rw [statement_run, EStateM.run_tryCatch]
    simp only [p0, rparen, statementBody]
    rw [run_bind_error expressionFails]
    rfl
  have topDropped : (topStatement (b + 1) #[]).run p0 = .ok #[] p1 := by
    rw [topStatement, EStateM.run_tryCatch, run_bind_ok statementDropped]
    rfl
  have atEnd : p1.advance.cur.kind = .eof := ended
  unfold Program.parseWith
  dsimp only
  rw [start, show p0.rounds = 1 + 1 from rfl, program_round _ _ (by simp [p0, rparen]),
    run_bind_ok topDropped, afterStatement, run_bind_ok (get_run p1)]
  simp only [p1, p0, Option.isSome_none, Bool.false_eq_true, if_false]
  rw [run_bind_ok (next_run _), program_at_end _ _ atEnd]
  rfl

/-- After 9999 line feeds a stray `)` is reported at line 10000, column 1, whose number takes five
places: the numbered line runs one byte past the caret's gutter, and the caret stands one byte
left of the parenthesis. -/
theorem caret_misses_line_ten_thousand :
    let src : List UInt8 := List.replicate 9999 10 ++ [41]
    let e : SyntaxError := ⟨⟨.rparen, [41], ⟨10000, 0⟩⟩, .expected .expression⟩
    Program.parse src = .error (.syntactic [e]) ∧
      (bytes (Text.padNat 4 e.pos.line ++ " | ")).length + e.pos.col ≠
        (bytes "     | ").length + e.pos.col := by
  intro src e
  have parsed : Program.parse src = .error (.syntactic [e]) :=
    parseWith_lone_rparen (Token.scan_feeds_rparen 9999) rfl rfl 2047
  obtain ⟨post, -, -, aligned⟩ :=
    (parse_errors_point_at_their_tokens src "").2 [e] parsed e (List.mem_singleton_self e)
  exact ⟨parsed, fun same => absurd (aligned.1 same) (by decide)⟩

end Monkey
