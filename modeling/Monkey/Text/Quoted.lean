import Monkey.Text.Utf8
import Monkey.Text.Printable
/-!
# Quoted strings

Two quoted forms of a byte string, both between double quotes.

* The debug form is unambiguous and printable: every character that is not printable is
  escaped, a byte that encodes nothing is written `\xNN`, and the quote and backslash are
  backslashed.
* The display form is for results: it backslashes only the quote, the backslash, line feed,
  carriage return and tab, writes every other character as it is, and shows a byte that encodes
  nothing as U+FFFD.
-/

namespace Monkey.Text

/-- The lowercase hexadecimal digit of a number below sixteen. -/
def hexDigit (n : Nat) : Char :=
  if n < 10 then Char.ofNat (48 + n) else Char.ofNat (87 + n)

/-- The lowest `width` hexadecimal digits of a number, most significant first. -/
def hexDigits (n : Nat) : (width : Nat) → List Char
  | 0 => []
  | w + 1 => hexDigits (n / 16) w ++ [hexDigit (n % 16)]

namespace Quoted

/-- The escape of a character that is not printable: the named escapes of the seven control
characters that have one, `\xNN` below the space and for delete, `\uNNNN` in the basic plane and
`\UNNNNNNNN` above it. -/
def escape (c : Char) : List Char :=
  let n := c.toNat
  if n = 7 then ['\\', 'a']
  else if n = 8 then ['\\', 'b']
  else if n = 12 then ['\\', 'f']
  else if n = 10 then ['\\', 'n']
  else if n = 13 then ['\\', 'r']
  else if n = 9 then ['\\', 't']
  else if n = 11 then ['\\', 'v']
  else if n < 0x20 || n = 0x7F then '\\' :: 'x' :: hexDigits n 2
  else if n < 0x10000 then '\\' :: 'u' :: hexDigits n 4
  else '\\' :: 'U' :: hexDigits n 8

/-- The debug spelling of one piece read from a byte string. -/
def debugPiece : Piece → List Char
  | .byte b => '\\' :: 'x' :: hexDigits b.toNat 2
  | .char c =>
    if c = '"' || c = '\\' then ['\\', c]
    else if isPrintable c then [c]
    else escape c

/-- The debug form of a byte string: printable characters as they are, everything else escaped. -/
def debug (bs : List UInt8) : String :=
  String.ofList ('"' :: ((Utf8.decode bs).flatMap debugPiece ++ ['"']))

/-- The display spelling of one character. -/
def displayChar (c : Char) : List Char :=
  if c = '\\' then ['\\', '\\']
  else if c = '"' then ['\\', '"']
  else if c = '\n' then ['\\', 'n']
  else if c = '\r' then ['\\', 'r']
  else if c = '\t' then ['\\', 't']
  else [c]

/-- The display form of a byte string: five characters escaped, bytes that encode nothing shown
as U+FFFD. -/
def display (bs : List UInt8) : String :=
  String.ofList ('"' :: ((ofBytesLossy bs).toList.flatMap displayChar ++ ['"']))

end Quoted

end Monkey.Text
