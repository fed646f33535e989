/-!
# Reading bytes as UTF-8

Source text and host strings are byte strings. Reading one as UTF-8 yields, left to right, either
a character together with its well-formed encoding, or a single byte that starts no well-formed
encoding; reading then goes on at the next byte. Overlong forms, surrogates and code points past
U+10FFFF are not well formed, so each of their bytes is read alone.
-/

namespace Monkey.Text

/-- One unit read from a byte string: a well-encoded character, or a byte that encodes nothing. -/
inductive Piece where
  | char (c : Char)
  | byte (b : UInt8)
deriving DecidableEq, Repr

namespace Utf8

/-- A continuation byte has the form `10xxxxxx`. -/
def isCont (b : UInt8) : Bool := 0x80 ≤ b && b ≤ 0xBF

/-- The payload bits of a byte under the given mask, as a number. -/
def bits (b : UInt8) (mask : UInt8) : Nat := (b &&& mask).toNat

/-- The second byte of a three- or four-byte form: ranges narrowed so that overlong forms,
surrogates and values past U+10FFFF are excluded. -/
def secondOk (b0 b1 : UInt8) : Bool :=
  if b0 = 0xE0 then 0xA0 ≤ b1 && b1 ≤ 0xBF
  else if b0 = 0xED then 0x80 ≤ b1 && b1 ≤ 0x9F
  else if b0 = 0xF0 then 0x90 ≤ b1 && b1 ≤ 0xBF
  else if b0 = 0xF4 then 0x80 ≤ b1 && b1 ≤ 0x8F
  else isCont b1

/-- The character whose well-formed encoding starts a byte string, with the bytes after it. -/
def readChar : List UInt8 → Option (Char × List UInt8)
  | [] => none
  | b0 :: rest =>
    if b0 < 0x80 then some (Char.ofNat b0.toNat, rest)
    else if 0xC2 ≤ b0 && b0 ≤ 0xDF then
      match rest with
      | b1 :: rest' =>
        if isCont b1 then some (Char.ofNat (bits b0 0x1F * 64 + bits b1 0x3F), rest') else none
      | [] => none
    else if 0xE0 ≤ b0 && b0 ≤ 0xEF then
      match rest with
      | b1 :: b2 :: rest' =>
        if secondOk b0 b1 && isCont b2 then
          some (Char.ofNat (bits b0 0x0F * 4096 + bits b1 0x3F * 64 + bits b2 0x3F), rest')
        else none
      | _ => none
    else if 0xF0 ≤ b0 && b0 ≤ 0xF4 then
      match rest with
      | b1 :: b2 :: b3 :: rest' =>
        if secondOk b0 b1 && isCont b2 && isCont b3 then
          some (Char.ofNat (bits b0 0x07 * 262144 + bits b1 0x3F * 4096 + bits b2 0x3F * 64
            + bits b3 0x3F), rest')
        else none
      | _ => none
    else none

/-- Reading a character consumes at least one byte. -/
theorem readChar_length {bs : List UInt8} {c : Char} {rest : List UInt8}
    (h : readChar bs = some (c, rest)) : rest.length < bs.length := by
  unfold readChar at h
  repeat' split at h
  all_goals simp_all only [Option.some.injEq, Prod.mk.injEq, reduceCtorEq]
  all_goals (obtain ⟨-, rfl⟩ := h; simp; try omega)

/-- Reads a byte string into pieces; a byte that starts no well-formed encoding is a piece of
its own. -/
def decode : List UInt8 → List Piece
  | [] => []
  | b :: bs =>
    match h : readChar (b :: bs) with
    | some (c, rest) =>
      have : rest.length < bs.length + 1 := by simpa using readChar_length h
      .char c :: decode rest
    | none => .byte b :: decode bs
termination_by bs => bs.length

end Utf8

/-- The UTF-8 bytes of a string. -/
def bytes (s : String) : List UInt8 := s.toUTF8.toList

/-- A byte string as text, when it is well-formed UTF-8 throughout. -/
def ofBytes? (bs : List UInt8) : Option String :=
  (Utf8.decode bs).mapM (fun | Piece.char c => some c | Piece.byte _ => none) |>.map String.ofList

/-- A byte string as text, each byte that encodes nothing replaced by U+FFFD. -/
def ofBytesLossy (bs : List UInt8) : String :=
  String.ofList <| (Utf8.decode bs).map fun
    | Piece.char c => c
    | Piece.byte _ => '�'

end Monkey.Text
