import Monkey.Proofs.Parsing
import Monkey.Proofs.Lexing

/-!
# The parser accepts exactly the programs of the grammar

A source that scans without a lexical error, and has fewer tokens than the nesting limit, parses
to a program exactly when the grammar of `Monkey.Proofs.Grammar` reads its token kinds, the end
of input included, as that program. The top level reads statements as a block does, up to the
end of input; `specs_of_parse` gives what each statement reads. Within the limit no expression
nests deep enough to be given up, so a run that records no error is one the grammar derives, and
the tree it returns is the derivation's.
-/

set_option autoImplicit false
set_option relaxedAutoImplicit false

namespace Monkey

namespace Parser

theorem upToEnd_of_real {ks : List Token.Kind} (real : ∀ k ∈ ks, k ≠ .eof) :
    upToEnd ks = ks ++ [.eof] := by
  induction ks with
  | nil => rfl
  | cons k ks ih =>
    rw [upToEnd_of_ne _ (real k (List.mem_cons_self ..)),
      ih fun k' mem => real k' (List.mem_cons_of_mem _ mem)]
    rfl

theorem ofScan_valid {ts : List Token} {last : Token} (limit : Nat)
    (real : ∀ t ∈ ts, t.kind ≠ .eof) (ended : last.kind = .eof) :
    (Parser.ofScan (ts, .ok last) limit).Valid := by
  match ts, real with
  | [], _ => constructor <;> simp [Parser.ofScan, Parser.advance, ended]
  | [t], real => constructor <;> simp_all [Parser.ofScan, Parser.advance]
  | t :: t' :: ts, real => constructor <;> simp_all [Parser.ofScan, Parser.advance]

theorem view_ofScan {ts : List Token} {last : Token} (limit : Nat)
    (real : ∀ t ∈ ts, t.kind ≠ .eof) (ended : last.kind = .eof) :
    (Parser.ofScan (ts, .ok last) limit).view = ts.map Token.kind ++ [.eof] := by
  match ts, real with
  | [], _ => simp [Parser.ofScan, Parser.advance, view, ended]
  | [t], real =>
    simp only [Parser.ofScan, Parser.advance, view, ended, List.map]
    rw [upToEnd_of_ne _ (real t (List.mem_singleton_self t)), upToEnd_eof]
    rfl
  | t :: t' :: ts, real =>
    simp only [Parser.ofScan, Parser.advance, view]
    exact upToEnd_of_real fun k mem => by
      obtain ⟨t'', mem'', rfl⟩ := List.mem_map.1 mem
      exact real t'' mem''

theorem errors_ofScan (scan : List Token × Except LexError Token) (limit : Nat) :
    (Parser.ofScan scan limit).errors = #[] := by
  simp [Parser.ofScan]

theorem limit_ofScan (scan : List Token × Except LexError Token) (limit : Nat) :
    (Parser.ofScan scan limit).limit = limit := by
  simp [Parser.ofScan]

theorem finish_ok_iff {q : Parser} (valid : q.Valid) {stmts : List Stmt} {prog : Program} :
    q.finish stmts = .ok prog ↔ q.errors = #[] ∧ prog = ⟨stmts⟩ := by
  by_cases clean : q.errors = #[]
  · simp only [Parser.finish, valid.noLexError, clean]
    simp
    exact ⟨Eq.symm, Eq.symm⟩
  · simp [Parser.finish, valid.noLexError, clean]

theorem view_of_head {q : Parser} (closes : q.view.head? = some .eof) : q.view = [.eof] := by
  rw [view_eq_cons] at closes ⊢
  have ended : q.cur.kind = .eof := Option.some.inj closes
  rw [ended, rest_of_eof ended]

end Parser

namespace Parse

open Monkey.Parser Monkey.Grammar

theorem program_follows (fuel : Nat) (acc : Array Stmt) (p : Parser) (valid : p.Valid)
    (budget : p.left < p.limit) (enough : p.left ≤ fuel) :
    Follows (program acc fuel) p view p.view
      (fun ts ss rest => ∃ more, ss = acc.toList ++ more ∧ Seq .eof ts more rest) := by
  -- one round per statement, each of which reads at least one token
  induction fuel generalizing acc p with
  | zero =>
    rw [program.eq_1]
    have ended : p.rest = [] := List.eq_nil_of_length_eq_zero (Nat.le_zero.1 enough)
    refine Follows.of_ok rfl (Reach.refl valid) rfl fun ss rest => ?_
    rw [view_eq_cons, ended, cur_eof_iff.2 ended]
    exact seq_eof_iff
  | succ fuel ih =>
    rw [program.eq_2]
    refine Follows.get_bind valid ?_
    split
    · next ended =>
      refine Follows.of_ok rfl (Reach.refl valid) rfl fun ss rest => ?_
      rw [view_eq_cons, rest_of_eof (beq_iff_eq.1 ended), beq_iff_eq.1 ended]
      exact seq_eof_iff
    · next going =>
      have real : p.cur.kind ≠ .eof := fun same => going (beq_iff_eq.2 same)
      refine (Follows.bind_of_clean
        (H := fun acc' mid ss rest => ∃ more, ss = acc'.toList ++ more ∧ Seq .eof mid more rest)
        (Follows.catching (Follows.bind
          (H := fun o mid acc' rest => acc' = o.elim acc acc.push ∧ rest = mid)
          (specs_of_parse.2.2.2.2.2.2.2.2.1 p.limit 0 p valid budget) fun o q _ reach => by
            cases o <;> exact Follows.pure reach.valid)
          fun h => ?_) (fun acc' q _ reach => ?_) fun acc' q _ reach _ derives => ?_).congr
        fun ss rest => ?_
      · -- a statement given up whole is passed over
        split
        · exact Moves.bind Moves.get fun q => Moves.bind (skipGivenUp_moves _ _) fun _ =>
            Moves.pure _
        · exact Moves.pure _
      · refine Moves.bind Moves.get (fun q => ?_) q reach.valid
        split
        · exact Moves.pure _
        · exact Moves.bind next_moves fun _ => program_moves _ _
      · -- a statement ends before the end of input, and the parser moves on after it
        obtain ⟨o, mid, first, -, rfl⟩ := derives
        have onToken := cur_ne_eof_of_mem (eof_mem_of_statement (eof_mem_view p) first)
        have fewer := reach.left_le
        have shorter := reach.valid.left_advance onToken
        refine Follows.get_bind reach.valid ?_
        split
        · next failed => simp [reach.valid.noLexError] at failed
        · refine Follows.next_bind reach.valid ((ih acc' _ reach.valid.advance
            (by rw [limit_advance, reach.limit]; omega) (by omega)).congr fun ss rest => ?_)
          rw [reach.valid.view_advance onToken]
      · constructor
        · rintro ⟨acc', mid, ⟨o, mid', first, rfl, rfl⟩, more, rfl, seq⟩
          rcases first with ⟨rfl, semi⟩ | ⟨s, rfl, first⟩
          · rw [semi]
            exact ⟨more, rfl, .empty seq⟩
          · exact ⟨s :: more, by simp, .stmt first seq⟩
        · rintro ⟨more, rfl, seq⟩
          rw [view_eq_cons] at seq ⊢
          rcases (seq_cons_iff real).1 seq with ⟨semi, seq'⟩ | ⟨s, mid, more', first, seq', rfl⟩
          · exact ⟨acc, p.rest, ⟨none, p.rest, .inl ⟨rfl, by rw [semi]⟩, rfl, rfl⟩, more, rfl, seq'⟩
          · exact ⟨acc.push s, mid, ⟨some s, mid, .inr ⟨s, rfl, first⟩, rfl, rfl⟩, more',
              by simp, seq'⟩

end Parse

open Monkey.Parser Monkey.Parse in
/-- A source that scans without a lexical error into fewer tokens than the nesting limit allows,
the end of input counted, parses to a program exactly when the grammar reads the kinds of its
tokens, the end of input included, as that program. -/
theorem parseWith_ok_iff_reads (maxDepth : Int) (src : List UInt8) (ts : List Token)
    (last : Token) (scanned : Token.scan src = (ts, .ok last))
    (fits : ts.length + 1 ≤ Parser.limitOf maxDepth) (prog : Program) :
    Program.parseWith (Parser.limitOf maxDepth) src = .ok prog ↔
      Grammar.Reads (ts.map Token.kind ++ [.eof]) prog := by
  have real := Token.scan_real scanned
  have ended := (Token.scanFrom_reads scanned).2
  have valid := ofScan_valid (Parser.limitOf maxDepth) real ended
  have view := view_ofScan (Parser.limitOf maxDepth) real ended
  have errors := errors_ofScan (ts, .ok last) (Parser.limitOf maxDepth)
  have limit := limit_ofScan (ts, .ok last) (Parser.limitOf maxDepth)
  unfold Program.parseWith
  rw [scanned]
  dsimp only
  generalize Parser.ofScan (ts, .ok last) (Parser.limitOf maxDepth) = p at *
  have budget : p.left < p.limit := by
    rw [limit, left, rest, view]
    cases ts <;> simp at fits ⊢ <;> omega
  have follows := program_follows _ #[] p valid budget (left_le_rounds p)
  constructor
  · intro parsed
    -- a parse that succeeds recorded no error, so the grammar derives what it returned
    cases run : (program #[] p.rounds).run p with
    | ok stmts q =>
      rw [run] at parsed
      have reach := follows.reach_ok run
      obtain ⟨clean, rfl⟩ := (finish_ok_iff reach.valid).1 parsed
      obtain ⟨stmts', q', run', more, same, seq⟩ :=
        follows.sound (by simp [Within, run, landing, clean])
      rw [run] at run'
      cases run'
      rw [view, view_of_head seq.closes] at seq
      simpa [Grammar.Reads, same] using seq
    | error h q =>
      rw [run] at parsed
      have reach := follows.reach_error run
      obtain ⟨clean, -⟩ := (finish_ok_iff reach.valid).1 parsed
      obtain ⟨stmts, q', run', -⟩ := follows.sound (by simp [Within, run, landing, clean])
      rw [run] at run'
      cases run'
  · intro reads
    obtain ⟨q, run, clean, -⟩ := follows.complete prog.stmts [.eof]
      ⟨prog.stmts, by simp, by rw [view]; exact reads⟩
    rw [run]
    have reach := follows.reach_ok run
    exact (finish_ok_iff reach.valid).2 ⟨by rw [clean, errors], rfl⟩

/-- `1+2*3` scans into five tokens, few enough for the default limit, and parses to a program
exactly when the grammar reads their kinds as it. -/
theorem parseWith_reads_sum_of_product :
    Token.scan [49, 43, 50, 42, 51] =
        ([⟨.int 1, [49], ⟨1, 0⟩⟩, ⟨.plus, [43], ⟨1, 1⟩⟩, ⟨.int 2, [50], ⟨1, 2⟩⟩,
          ⟨.star, [42], ⟨1, 3⟩⟩, ⟨.int 3, [51], ⟨1, 4⟩⟩], .ok ⟨.eof, [], ⟨1, 5⟩⟩) ∧
      5 + 1 ≤ Parser.limitOf 0 ∧
      (Program.parseWith (Parser.limitOf 0) [49, 43, 50, 42, 51] =
          .ok ⟨[.expr (.binop .add (.int 1) (.binop .mul (.int 2) (.int 3)))]⟩ ↔
        Grammar.Reads [.int 1, .plus, .int 2, .star, .int 3, .eof]
          ⟨[.expr (.binop .add (.int 1) (.binop .mul (.int 2) (.int 3)))]⟩) := by
  have scanned : Token.scan [49, 43, 50, 42, 51] =
      ([⟨.int 1, [49], ⟨1, 0⟩⟩, ⟨.plus, [43], ⟨1, 1⟩⟩, ⟨.int 2, [50], ⟨1, 2⟩⟩,
        ⟨.star, [42], ⟨1, 3⟩⟩, ⟨.int 3, [51], ⟨1, 4⟩⟩], .ok ⟨.eof, [], ⟨1, 5⟩⟩) := by
    cbv
  exact ⟨scanned, by decide, parseWith_ok_iff_reads 0 _ _ _ scanned (by decide) _⟩

end Monkey
