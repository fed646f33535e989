import Monkey.Value
import Mathlib

/-!
# The display form of a string reads back

A string value is displayed between double quotes, with the backslash, the quote, line feed,
carriage return and tab written as two-character escapes and every other character as it is; the
bytes are first read as UTF-8, and a byte that encodes nothing shows as U+FFFD.

On well-formed UTF-8 nothing is lost on the way. The reader of the bytes undoes the standard
encoding character by character (`Utf8.readChar_encode`), so it gives back the characters a byte
string encodes (`Utf8.decode_encode`). Every escape starts with a backslash and no character is
written as a bare backslash, so `Quoted.undisplay` reads the escaped text back one character or
escape at a time (`Quoted.undisplay_display`), and `Quoted.readDisplay` reads the whole display
form back to the characters (`Quoted.readDisplay_encode`). Two well-formed byte strings with the
same display form are therefore equal (`quoted_display_injective`).

Well-formedness is needed: the bytes `C0` and `C1` are both malformed, and both show as U+FFFD.
-/

set_option autoImplicit false
set_option relaxedAutoImplicit false

namespace Monkey

namespace Text

namespace Utf8

/-! ## Reading back the standard encoding -/

theorem toNat_byte {n : Nat} (small : n < 256) : (UInt8.ofNat n).toNat = n := by
  simp [Nat.mod_eq_of_lt small]

theorem bits_low (b : UInt8) (k : Nat) (m : UInt8) (mask : m.toNat = 2 ^ k - 1) :
    bits b m = b.toNat % 2 ^ k := by
  rw [bits, UInt8.toNat_and, mask, Nat.and_two_pow_sub_one_eq_mod]

/-! Each width of the standard encoding is read back by the branch for its lead byte. The
encoder's bytes are written out as it computes them, from the code point `v`. -/

theorem readChar_one {v : Nat} (hi : v ≤ 0x7F) (rest : List UInt8) :
    readChar (UInt8.ofNat v :: rest) = some (Char.ofNat v, rest) := by
  have b0 := toNat_byte (n := v) (by omega)
  unfold readChar
  dsimp only
  rw [if_pos (by rw [UInt8.lt_iff_toNat_lt, b0]; simp; omega), b0]

theorem readChar_two {v : Nat} (lo : 0x80 ≤ v) (hi : v ≤ 0x7FF) (rest : List UInt8) :
    readChar (UInt8.ofNat (v / 64 % 32 + 192) :: UInt8.ofNat (v % 64 + 128) :: rest) =
      some (Char.ofNat v, rest) := by
  have b0 := toNat_byte (n := v / 64 % 32 + 192) (by omega)
  have b1 := toNat_byte (n := v % 64 + 128) (by omega)
  unfold readChar
  dsimp only
  simp only [isCont, Bool.and_eq_true, decide_eq_true_eq, UInt8.lt_iff_toNat_lt,
    UInt8.le_iff_toNat_le, b0, b1, UInt8.reduceToNat]
  rw [if_neg (by omega), if_pos (by omega), if_pos (by omega), bits_low _ 5 _ rfl,
    bits_low _ 6 _ rfl, b0, b1]
  congr 3
  omega

theorem readChar_three {v : Nat} (lo : 0x800 ≤ v) (hi : v ≤ 0xFFFF)
    (scalar : v < 0xD800 ∨ 0xDFFF < v) (rest : List UInt8) :
    readChar (UInt8.ofNat (v / 4096 % 16 + 224) :: UInt8.ofNat (v / 64 % 64 + 128) ::
      UInt8.ofNat (v % 64 + 128) :: rest) = some (Char.ofNat v, rest) := by
  have b0 := toNat_byte (n := v / 4096 % 16 + 224) (by omega)
  have b1 := toNat_byte (n := v / 64 % 64 + 128) (by omega)
  have b2 := toNat_byte (n := v % 64 + 128) (by omega)
  unfold readChar
  dsimp only
  simp only [secondOk, isCont, Bool.and_eq_true, decide_eq_true_eq, UInt8.lt_iff_toNat_lt,
    UInt8.le_iff_toNat_le, ← UInt8.toNat_inj, b0, b1, b2, UInt8.reduceToNat]
  rw [if_neg (by omega), if_neg (by omega), if_pos (by omega),
    if_pos (by split_ifs <;> simp only [Bool.and_eq_true, decide_eq_true_eq] <;> omega),
    bits_low _ 4 _ rfl, bits_low _ 6 _ rfl, bits_low _ 6 _ rfl, b0, b1, b2]
  congr 3
  omega

theorem readChar_four {v : Nat} (lo : 0x10000 ≤ v) (hi : v < 0x110000) (rest : List UInt8) :
    readChar (UInt8.ofNat (v / 262144 % 8 + 240) :: UInt8.ofNat (v / 4096 % 64 + 128) ::
      UInt8.ofNat (v / 64 % 64 + 128) :: UInt8.ofNat (v % 64 + 128) :: rest) =
      some (Char.ofNat v, rest) := by
  have b0 := toNat_byte (n := v / 262144 % 8 + 240) (by omega)
  have b1 := toNat_byte (n := v / 4096 % 64 + 128) (by omega)
  have b2 := toNat_byte (n := v / 64 % 64 + 128) (by omega)
  have b3 := toNat_byte (n := v % 64 + 128) (by omega)
  unfold readChar
  dsimp only
  simp only [secondOk, isCont, Bool.and_eq_true, decide_eq_true_eq, UInt8.lt_iff_toNat_lt,
    UInt8.le_iff_toNat_le, ← UInt8.toNat_inj, b0, b1, b2, b3, UInt8.reduceToNat]
  rw [if_neg (by omega), if_neg (by omega), if_neg (by omega), if_pos (by omega),
    if_pos (by split_ifs <;> simp only [Bool.and_eq_true, decide_eq_true_eq] <;> omega),
    bits_low _ 3 _ rfl, bits_low _ 6 _ rfl, bits_low _ 6 _ rfl, bits_low _ 6 _ rfl,
    b0, b1, b2, b3]
  congr 3
  omega

theorem readChar_encode (c : Char) (rest : List UInt8) :
    readChar (String.utf8EncodeChar c ++ rest) = some (c, rest) := by
  have scalar := c.valid
  simp only [UInt32.isValidChar, Nat.isValidChar] at scalar
  conv_rhs => rw [← Char.ofNat_toNat c]
  unfold String.utf8EncodeChar
  dsimp only
  split_ifs with one two three
  · exact readChar_one one rest
  · exact readChar_two (by omega) two rest
  · exact readChar_three (by omega) three (by omega) rest
  · exact readChar_four (by omega) (by omega) rest

theorem decode_of_readChar {bs rest : List UInt8} {c : Char} (read : readChar bs = some (c, rest)) :
    decode bs = .char c :: decode rest := by
  cases bs with
  | nil => simp [readChar] at read
  | cons b bs =>
    rw [decode]
    split
    · rename_i c' rest' read'
      rw [read] at read'
      cases read'
      rfl
    · rename_i noChar
      rw [read] at noChar
      cases noChar

theorem decode_encode (cs : List Char) :
    decode (cs.flatMap String.utf8EncodeChar) = cs.map .char := by
  induction cs with
  | nil => simp [decode]
  | cons c cs ih =>
    rw [List.flatMap_cons, decode_of_readChar (readChar_encode c _), ih, List.map_cons]

end Utf8

theorem ofBytesLossy_encode (cs : List Char) :
    ofBytesLossy (cs.flatMap String.utf8EncodeChar) = String.ofList cs := by
  simp [ofBytesLossy, Utf8.decode_encode, Function.comp_def]

theorem eq_encode_of_valid {bs : List UInt8} (valid : bs.toByteArray.IsValidUTF8) :
    ∃ cs : List Char, bs = cs.flatMap String.utf8EncodeChar := by
  obtain ⟨cs, encoded⟩ := valid
  exact ⟨cs, List.toByteArray_inj.1 encoded⟩

namespace Quoted

/-! ## Reading the display form back -/

/-- The character a backslash escape of the display form stands for. -/
def unescape : Char → Option Char
  | '\\' => some '\\'
  | '"' => some '"'
  | 'n' => some '\n'
  | 'r' => some '\r'
  | 't' => some '\t'
  | _ => none

/-- Reads escaped display text back: a backslash and the character after it are one escape,
every other character stands for itself. -/
def undisplay : List Char → Option (List Char)
  | [] => some []
  | c :: rest =>
    if c = '\\' then
      match rest with
      | e :: more => do some ((← unescape e) :: (← undisplay more))
      | [] => none
    else (undisplay rest).map (c :: ·)

/-- Reads a display form back: its text between the quotes, unescaped. -/
def readDisplay (s : String) : Option (List Char) :=
  match s.toList with
  | '"' :: body => if body.getLast? = some '"' then undisplay body.dropLast else none
  | _ => none

theorem undisplay_escape {e c : Char} (escape : unescape e = some c) (rest : List Char) :
    undisplay ('\\' :: e :: rest) = (undisplay rest).map (c :: ·) := by
  simp only [undisplay, if_true, escape]
  cases undisplay rest <;> rfl

theorem undisplay_plain {c : Char} (plain : c ≠ '\\') (rest : List Char) :
    undisplay (c :: rest) = (undisplay rest).map (c :: ·) := by
  rw [undisplay.eq_def]
  exact if_neg plain

theorem undisplay_displayChar (c : Char) (rest : List Char) :
    undisplay (displayChar c ++ rest) = (undisplay rest).map (c :: ·) := by
  unfold displayChar
  split_ifs with backslash quote lf cr tab
  all_goals simp only [List.cons_append, List.nil_append]
  -- the five escapes, each read back through `unescape`
  · subst backslash
    exact undisplay_escape rfl rest
  · subst quote
    exact undisplay_escape rfl rest
  · subst lf
    exact undisplay_escape rfl rest
  · subst cr
    exact undisplay_escape rfl rest
  · subst tab
    exact undisplay_escape rfl rest
  · exact undisplay_plain backslash rest

theorem undisplay_display (cs : List Char) : undisplay (cs.flatMap displayChar) = some cs := by
  induction cs with
  | nil => rfl
  | cons c cs ih => rw [List.flatMap_cons, undisplay_displayChar, ih, Option.map_some]

theorem readDisplay_encode (cs : List Char) :
    readDisplay (Value.str (cs.flatMap String.utf8EncodeChar)).display = some cs := by
  simp only [Value.display, display, ofBytesLossy_encode, String.toList_ofList, readDisplay,
    List.getLast?_append, List.getLast?_singleton, Option.some_or, if_true,
    List.dropLast_concat, undisplay_display]

end Quoted

end Text

/-- Distinct well-formed UTF-8 strings have distinct display forms. -/
theorem quoted_display_injective {s₁ s₂ : List UInt8} (valid₁ : s₁.toByteArray.IsValidUTF8)
    (valid₂ : s₂.toByteArray.IsValidUTF8) (same : (Value.str s₁).display = (Value.str s₂).display) :
    s₁ = s₂ := by
  obtain ⟨cs₁, rfl⟩ := Text.eq_encode_of_valid valid₁
  obtain ⟨cs₂, rfl⟩ := Text.eq_encode_of_valid valid₂
  have read := Text.Quoted.readDisplay_encode cs₁
  rw [same, Text.Quoted.readDisplay_encode] at read
  cases read
  rfl

/-- A string of a letter, a quote, a backslash and a two-byte letter. -/
theorem quoted_display_injective_escapes :
    [0x61, 0x22, 0x5C, 0xC3, 0xA9].toByteArray.IsValidUTF8 ∧
      (Value.str [0x61, 0x22, 0x5C, 0xC3, 0xA9]).display =
        (Value.str [0x61, 0x22, 0x5C, 0xC3, 0xA9]).display ∧
      ([0x61, 0x22, 0x5C, 0xC3, 0xA9] : List UInt8) = [0x61, 0x22, 0x5C, 0xC3, 0xA9] :=
  ⟨⟨['a', '"', '\\', 'é'], rfl⟩, rfl,
    quoted_display_injective ⟨['a', '"', '\\', 'é'], rfl⟩ ⟨['a', '"', '\\', 'é'], rfl⟩ rfl⟩

end Monkey
