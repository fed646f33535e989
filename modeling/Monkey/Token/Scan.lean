import Monkey.Token
import Monkey.Text.Snippet
/-!
# Scanning source bytes into tokens

Blanks (space, tab, line feed, carriage return) separate tokens. Identifiers are runs of ASCII
letters and underscores, reserved words among them keywords; integer literals are runs of ASCII
digits that name a 32-bit value. `==` and `!=` are read whole, each other operator or delimiter
is one byte, and any other byte is an illegal token of its own. A run of digits followed by a
letter, or naming a value past 2147483647, is a lexical error at the start of the run; scanning
stops there for good. After the last token, scanning yields the end-of-input token again and
again, at the place after the final blanks.
-/

namespace Monkey

/-- Why scanning stopped. -/
inductive LexFault where
  /-- A run of digits runs into a letter; the text is the digits and that letter. -/
  | letterAfterDigits (text : List UInt8)
  /-- A run of digits names a value past the largest 32-bit integer. -/
  | overflow (digits : List UInt8)
deriving DecidableEq

/-- A lexical error: its fault and the place of the number where it was met. -/
structure LexError where
  pos : Pos
  fault : LexFault
deriving DecidableEq

/-- The detail of a lexical fault. -/
def LexFault.message : LexFault → String
  | .letterAfterDigits text => "invalid integer literal " ++ Text.Quoted.debug text
  | .overflow digits => "integer literal " ++ Text.ofBytesLossy digits ++ " overflows int32"

/-- The one-line text of a lexical error; the column is shown counting from 1. -/
def LexError.message (e : LexError) : String :=
  "LEXICAL ERROR at " ++ toString e.pos.line ++ ":" ++ toString (e.pos.col + 1) ++ ": " ++
    e.fault.message

/-- The caret snippet of a lexical error in its source, under a source name (empty for none). -/
def LexError.pretty (e : LexError) (name : String) (src : List UInt8) : List UInt8 :=
  Text.snippet src "LEXICAL ERROR" name e.pos.line (e.pos.col + 1) e.fault.message

namespace Token

/-- Blanks separate tokens: space, tab, line feed and carriage return. -/
def isBlank (b : UInt8) : Bool := b = 32 || b = 9 || b = 10 || b = 13

/-- Identifier bytes: ASCII letters and the underscore. -/
def isLetter (b : UInt8) : Bool := (97 ≤ b && b ≤ 122) || (65 ≤ b && b ≤ 90) || b = 95

/-- Decimal digits. -/
def isDigit (b : UInt8) : Bool := 48 ≤ b && b ≤ 57

/-- The value named by a run of decimal digits. -/
def digitsValue (ds : List UInt8) : Nat := ds.foldl (fun n d => n * 10 + (d.toNat - 48)) 0

/-- The largest 32-bit integer, the largest value an integer literal may name. -/
def intMax : Nat := 2147483647

/-- Whether a byte string starts with a letter. -/
def startsWithLetter : List UInt8 → Bool
  | c :: _ => isLetter c
  | [] => false

/-- The token kind of an operator or delimiter written as one byte. -/
def Kind.ofByte? (b : UInt8) : Option Kind :=
  if b = 43 then some .plus
  else if b = 45 then some .minus
  else if b = 42 then some .star
  else if b = 47 then some .slash
  else if b = 60 then some .lt
  else if b = 62 then some .gt
  else if b = 44 then some .comma
  else if b = 59 then some .semicolon
  else if b = 40 then some .lparen
  else if b = 41 then some .rparen
  else if b = 123 then some .lbrace
  else if b = 125 then some .rbrace
  else none

/-- An operator that may be doubled by a following `=`: the byte `b` alone gives `short`,
and followed by `=` gives `long`. -/
def readPair (b : UInt8) (rest : List UInt8) (long short : Kind) :
    Kind × List UInt8 × List UInt8 :=
  match rest with
  | 61 :: after => (long, [b, 61], after)
  | _ => (short, [b], rest)

/-- Reads the token whose first byte `b` (not a blank) stands at `pos`, followed by `rest`:
its kind, its lexeme and the bytes after it, or the fault of a bad number. -/
def read (pos : Pos) (b : UInt8) (rest : List UInt8) :
    Except LexError (Kind × List UInt8 × List UInt8) :=
  if b = 61 then .ok (readPair b rest .eq .assign)
  else if b = 33 then .ok (readPair b rest .ne .bang)
  else match Kind.ofByte? b with
  | some k => .ok (k, [b], rest)
  | none =>
    if isLetter b then
      let word := b :: rest.takeWhile isLetter
      .ok (Kind.ofWord (String.ofList (word.map fun c => Char.ofNat c.toNat)), word,
        rest.dropWhile isLetter)
    else if isDigit b then
      let digits := b :: rest.takeWhile isDigit
      let after := rest.dropWhile isDigit
      if startsWithLetter after then .error ⟨pos, .letterAfterDigits (digits ++ after.take 1)⟩
      else if digitsValue digits ≤ intMax then
        .ok (.int (Int32.ofNat (digitsValue digits)), digits, after)
      else .error ⟨pos, .overflow digits⟩
    else .ok (.illegal, [b], rest)

/-- Reading a token never reads past the bytes it is given. -/
theorem read_length {pos : Pos} {b : UInt8} {rest : List UInt8} {k : Kind}
    {lexeme after : List UInt8} (h : read pos b rest = .ok (k, lexeme, after)) :
    after.length ≤ rest.length := by
  unfold read readPair at h
  simp only at h
  repeat' split at h
  all_goals simp only [Except.ok.injEq, Prod.mk.injEq, reduceCtorEq] at h
  all_goals obtain ⟨-, -, rfl⟩ := h
  all_goals first
    | simp
    | exact (List.dropWhile_suffix _).length_le

/-- The bytes of a source past its leading blanks, and the place where they start. -/
def skipBlanks (pos : Pos) (bs : List UInt8) : Pos × List UInt8 :=
  (pos.advanceAll (bs.takeWhile isBlank), bs.dropWhile isBlank)

/-- Scans a source from a place: the tokens read, then the end-of-input token or the first
lexical error. -/
def scanFrom (pos : Pos) (bs : List UInt8) : List Token × Except LexError Token :=
  match h : bs.dropWhile isBlank with
  | [] => ([], .ok (eofAt (pos.advanceAll (bs.takeWhile isBlank))))
  | b :: rest =>
    let start := pos.advanceAll (bs.takeWhile isBlank)
    match hr : read start b rest with
    | .error e => ([], .error e)
    | .ok (k, lexeme, after) =>
      have : after.length < bs.length := by
        have h1 := read_length hr
        have h2 := (List.dropWhile_suffix isBlank (l := bs)).length_le
        rw [h] at h2
        simp at h2
        omega
      let (ts, last) := scanFrom (start.advanceAll lexeme) after
      (⟨k, lexeme, start⟩ :: ts, last)
termination_by bs.length

/-- Scans a whole source: the tokens before the end, then the end-of-input token or the first
lexical error. -/
def scan (src : List UInt8) : List Token × Except LexError Token := scanFrom Pos.start src

end Token

/-- A scanner part-way through a source: the bytes not yet read, the place of the first of them,
and the lexical error met, which it keeps reporting. -/
structure Lexer where
  rest : List UInt8
  pos : Pos
  fault : Option LexError := none

namespace Lexer

/-- A scanner at the start of a source. -/
def ofBytes (src : List UInt8) : Lexer := { rest := src, pos := Pos.start }

/-- The next token and the scanner after it. At the end the end-of-input token comes again on
every call; after a lexical error the same error does. -/
def next (lx : Lexer) : Except LexError Token × Lexer :=
  match lx.fault with
  | some e => (.error e, lx)
  | none =>
    let (start, bs) := Token.skipBlanks lx.pos lx.rest
    match bs with
    | [] => (.ok (Token.eofAt start), { rest := [], pos := start })
    | b :: rest =>
      match Token.read start b rest with
      | .error e => (.error e, { lx with fault := some e })
      | .ok (k, lexeme, after) =>
        (.ok ⟨k, lexeme, start⟩, { rest := after, pos := start.advanceAll lexeme })

end Lexer

end Monkey
