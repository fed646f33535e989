import Monkey.Text.Utf8
/-!
# JSON string literals

A byte string written as a JSON string literal: the quote and backslash are backslashed, line
feed, carriage return and tab have short escapes, other controls below the space are written
`\u00XX` in lowercase hexadecimal, and a byte that encodes nothing becomes the replacement
character U+FFFD. Two writers differ beyond that; a record of escape choices says how.
-/

namespace Monkey.Text

/-- Escape choices beyond the common ones. -/
structure JsonEscapes where
  /-- Escape `<`, `>`, `&`, U+2028 and U+2029, so the text is safe inside markup. -/
  markup : Bool
  /-- Write backspace and form feed as `\b` and `\f` rather than `\u00XX`. -/
  shortControls : Bool
  /-- Write the replacement character for a stray byte as itself rather than as `\ufffd`. -/
  rawReplacement : Bool

/-- The escapes of record lines: markup-safe, with short forms for backspace and form feed, and
a stray byte replaced by the replacement character itself. -/
def JsonEscapes.record : JsonEscapes := ⟨true, true, true⟩

/-- The escapes of log fields: only what JSON requires, and a stray byte as `\ufffd`. -/
def JsonEscapes.log : JsonEscapes := ⟨false, false, false⟩

/-- `\u` and four lowercase hexadecimal digits of a number below 65536. -/
def unicodeEscape (n : Nat) : List Char :=
  let hex (d : Nat) : Char := if d < 10 then Char.ofNat (48 + d) else Char.ofNat (87 + d)
  ['\\', 'u', hex (n / 4096 % 16), hex (n / 256 % 16), hex (n / 16 % 16), hex (n % 16)]

/-- The JSON spelling of one piece. -/
def jsonPiece (esc : JsonEscapes) : Piece → List Char
  | .byte _ => if esc.rawReplacement then ['\uFFFD'] else unicodeEscape 0xFFFD
  | .char c =>
    if c = '"' then ['\\', '"']
    else if c = '\\' then ['\\', '\\']
    else if c = '\n' then ['\\', 'n']
    else if c = '\r' then ['\\', 'r']
    else if c = '\t' then ['\\', 't']
    else if esc.shortControls && c = '\x08' then ['\\', 'b']
    else if esc.shortControls && c = '\x0c' then ['\\', 'f']
    else if c.toNat < 0x20 then unicodeEscape c.toNat
    else if esc.markup && (c = '<' || c = '>' || c = '&' || c = ' ' || c = ' ') then
      unicodeEscape c.toNat
    else [c]

/-- A byte string as a JSON string literal. -/
def jsonQuote (esc : JsonEscapes) (bs : List UInt8) : String :=
  String.ofList ('"' :: ((Utf8.decode bs).flatMap (jsonPiece esc) ++ ['"']))

end Monkey.Text
