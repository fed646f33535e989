import Monkey.Text.Quoted
/-!
# Tokens

A token is a kind, the bytes it was read from (its lexeme) and the place where it starts.
Identifiers carry their name and integer literals their 32-bit value; two tokens are the same
token when their kinds, payload included, agree, whatever their lexemes and places.
-/

namespace Monkey

/-- A place in the source: the line counts from 1, the column counts bytes from 0. -/
structure Pos where
  line : Nat
  col : Nat
deriving DecidableEq, Repr

namespace Pos

/-- The place of the first byte of a source. -/
def start : Pos := ⟨1, 0⟩

/-- The place after one more byte: a line feed starts the next line, any other byte is one
column wide. -/
def advance (p : Pos) (b : UInt8) : Pos :=
  if b = 10 then ⟨p.line + 1, 0⟩ else ⟨p.line, p.col + 1⟩

/-- The place after a run of bytes. -/
def advanceAll (p : Pos) (bs : List UInt8) : Pos := bs.foldl advance p

end Pos

namespace Token

/-- The kinds of token. Keywords are reserved identifiers. -/
inductive Kind where
  | eof
  | illegal
  | ident (name : String)
  | int (value : Int32)
  | assign
  | plus
  | minus
  | bang
  | star
  | slash
  | lt
  | gt
  | eq
  | ne
  | comma
  | semicolon
  | lparen
  | rparen
  | lbrace
  | rbrace
  | kwFn
  | kwLet
  | kwTrue
  | kwFalse
  | kwIf
  | kwElse
  | kwReturn
deriving DecidableEq

namespace Kind

/-- The name of a kind: the class for end of input, illegal bytes, identifiers and integers,
and the spelling for operators, delimiters and keywords. -/
def name : Kind → String
  | eof => "EOF"
  | illegal => "ILLEGAL"
  | ident _ => "IDENT"
  | int _ => "INT"
  | assign => "="
  | plus => "+"
  | minus => "-"
  | bang => "!"
  | star => "*"
  | slash => "/"
  | lt => "<"
  | gt => ">"
  | eq => "=="
  | ne => "!="
  | comma => ","
  | semicolon => ";"
  | lparen => "("
  | rparen => ")"
  | lbrace => "\x7b"
  | rbrace => "\x7d"
  | kwFn => "fn"
  | kwLet => "let"
  | kwTrue => "true"
  | kwFalse => "false"
  | kwIf => "if"
  | kwElse => "else"
  | kwReturn => "return"

/-- The kind of a word of letters: a keyword when it is reserved, spelt exactly, else an
identifier named by the word. -/
def ofWord (w : String) : Kind :=
  if w = "fn" then kwFn
  else if w = "let" then kwLet
  else if w = "true" then kwTrue
  else if w = "false" then kwFalse
  else if w = "if" then kwIf
  else if w = "else" then kwElse
  else if w = "return" then kwReturn
  else ident w

end Kind

end Token

/-- A token: its kind, the bytes it was read from, and the place of its first byte. -/
structure Token where
  kind : Token.Kind
  lexeme : List UInt8
  pos : Pos

namespace Token

/-- The end-of-input token at a place. -/
def eofAt (pos : Pos) : Token := ⟨.eof, [], pos⟩

/-- The name carried by an identifier, empty for other tokens. -/
def identName (t : Token) : String :=
  match t.kind with
  | .ident n => n
  | _ => ""

/-- The value carried by an integer literal, zero for other tokens. -/
def intValue (t : Token) : Int32 :=
  match t.kind with
  | .int v => v
  | _ => 0

/-- How messages refer to a token: identifiers and integers with their payload, an illegal byte
with its quoted lexeme, anything else by its kind's name. -/
def describe (t : Token) : String :=
  match t.kind with
  | .ident n => "IDENT(" ++ n ++ ")"
  | .int v => "INT(" ++ toString v.toInt ++ ")"
  | .illegal =>
    if t.lexeme.isEmpty then "ILLEGAL" else "ILLEGAL(" ++ Text.Quoted.debug t.lexeme ++ ")"
  | k => k.name

/-- Two tokens are the same token when their kinds and payloads agree. -/
def same (a b : Token) : Bool := a.kind == b.kind

end Token

end Monkey
