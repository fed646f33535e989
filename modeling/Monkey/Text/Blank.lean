import Monkey.Text.Utf8
/-!
# Blank characters

A character is blank when Unicode gives it the White_Space property: the controls tab to
carriage return, space, next line, no-break space, ogham space mark, the spaces from en quad to
hair space, line and paragraph separators, narrow no-break space, medium mathematical space and
ideographic space. Trimming a byte string drops blank characters at both ends; a byte that
encodes nothing is not blank.
-/

namespace Monkey.Text

/-- The Unicode White_Space property. -/
def isWhiteSpace (c : Char) : Bool :=
  let n := c.toNat
  (9 ≤ n && n ≤ 13) || n = 0x20 || n = 0x85 || n = 0xA0 || n = 0x1680 ||
    (0x2000 ≤ n && n ≤ 0x200A) || n = 0x2028 || n = 0x2029 || n = 0x202F || n = 0x205F ||
    n = 0x3000

namespace Piece

/-- Whether a piece is a blank character. -/
def isBlank : Piece → Bool
  | char c => isWhiteSpace c
  | byte _ => false

/-- The bytes a piece was read from. -/
def toBytes : Piece → List UInt8
  | char c => bytes (String.singleton c)
  | byte b => [b]

end Piece

/-- A byte string without the blank characters at its ends. -/
def trimBlank (bs : List UInt8) : List UInt8 :=
  let pieces := ((Utf8.decode bs).dropWhile Piece.isBlank).reverse.dropWhile Piece.isBlank
  pieces.reverse.flatMap Piece.toBytes

end Monkey.Text
