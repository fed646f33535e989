import Monkey.Text.Utf8
/-!
# Boxed tables

A table drawn with ASCII rules: a rule of `+` and `-` above, a heading row with the column names
in capitals, centred, a rule, one row per record with the cells aligned left, and a closing
rule. Each column is as wide as its widest entry, with one space of margin on either side. A
centred name gets the smaller half of the spare room on its left.

Cells hold ASCII text and stray bytes that encode nothing: a control character takes no room,
and any other character or byte takes one column.
-/

namespace Monkey.Text

/-- The columns a piece of a cell takes. -/
def Piece.columns : Piece → Nat
  | .char c => if c.toNat < 0x20 || (0x7F ≤ c.toNat && c.toNat ≤ 0x9F) then 0 else 1
  | .byte _ => 1

/-- The columns a cell takes. -/
def cellWidth (bs : List UInt8) : Nat := (Utf8.decode bs).foldl (fun w p => w + p.columns) 0

/-- A number of spaces. -/
def spaces (n : Nat) : List UInt8 := List.replicate n 32

/-- A table: its column names and its rows of cells. -/
structure Table where
  header : List String
  rows : List (List (List UInt8))

namespace Table

/-- The width of each column: the widest of its name and its cells. -/
def widths (t : Table) : List Nat :=
  (List.range t.header.length).map fun i =>
    t.rows.foldl (fun w row => max w (cellWidth (row.getD i [])))
      (cellWidth (bytes (t.header.getD i "")))

/-- A rule across the columns. -/
def rule (ws : List Nat) : List UInt8 :=
  bytes "+" ++ ws.flatMap (fun w => List.replicate (w + 2) 45 ++ bytes "+") ++ [10]

/-- A name in capitals, centred in a width. -/
def centred (w : Nat) (name : String) : List UInt8 :=
  let cell := bytes name.toUpper
  let gap := w - cellWidth cell
  spaces (gap / 2) ++ cell ++ spaces (gap - gap / 2)

/-- A row of cells between bars, each padded to its column's width. -/
def line (cells : List (List UInt8)) : List UInt8 :=
  bytes "|" ++ cells.flatMap (fun c => bytes " " ++ c ++ bytes " |") ++ [10]

/-- The drawing of a table. -/
def render (t : Table) : List UInt8 :=
  let ws := t.widths
  let heading := line (ws.zipWith (fun w h => centred w h) t.header)
  let body := t.rows.flatMap fun row =>
    line (ws.zipIdx.map fun (w, i) =>
      let c := row.getD i []
      c ++ spaces (w - cellWidth c))
  rule ws ++ heading ++ rule ws ++ body ++ rule ws

end Table

end Monkey.Text
