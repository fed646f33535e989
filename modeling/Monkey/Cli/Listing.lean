import Monkey.Token.Scan
import Monkey.Text.Table
import Monkey.Text.Json
/-!
# Token listings

The tokens of a source are listed in one of three forms: plain lines with the place, the kind
and the quoted lexeme in fixed columns; a boxed table of line, column, kind and lexeme; or one
JSON record per token. Columns count from 1. The end-of-input token is listed only on request,
and the tokens read before a lexical error are listed all the same.
-/

namespace Monkey.Cli

/-- The tokens to list: those before the end, with the end-of-input token when asked for, and
the lexical error that stopped scanning, if any. -/
def listedTokens (src : List UInt8) (withEof : Bool) : List Token × Option LexError :=
  match Token.scan src with
  | (ts, .ok eof) => (if withEof then ts ++ [eof] else ts, none)
  | (ts, .error e) => (ts, some e)

/-- A text padded with spaces on the right to a width. -/
def padRight (width : Nat) (s : String) : String :=
  s ++ String.ofList (List.replicate (width - s.length) ' ')

/-- A token as a plain line: the line right-aligned in four columns, a colon, the column in
three, the kind in twelve, and the quoted lexeme. -/
def plainLine (t : Token) : List UInt8 :=
  Text.bytes (Text.padNat 4 t.pos.line ++ ":" ++ padRight 3 (toString (t.pos.col + 1)) ++ " " ++
    padRight 12 t.kind.name ++ " lexeme=" ++ Text.Quoted.debug t.lexeme ++ "\n")

/-- The tokens as a boxed table of line, column, kind and lexeme. -/
def tokenTable (ts : List Token) : List UInt8 :=
  Text.Table.render
    { header := ["Line", "Col", "Type", "Lexeme"]
      rows := ts.map fun t =>
        [Text.bytes (toString t.pos.line), Text.bytes (toString (t.pos.col + 1)),
          Text.bytes t.kind.name, t.lexeme] }

/-- A token as a JSON record: kind, lexeme (left out when empty), line and column. -/
def jsonLine (t : Token) : List UInt8 :=
  let lexeme := if t.lexeme.isEmpty then ""
    else ",\"lexeme\":" ++ Text.jsonQuote .record t.lexeme
  Text.bytes ("\x7b\"type\":" ++ Text.jsonQuote .record (Text.bytes t.kind.name) ++ lexeme ++
    ",\"line\":" ++ toString t.pos.line ++ ",\"col\":" ++ toString (t.pos.col + 1) ++ "\x7d\n")

end Monkey.Cli
