import Monkey.Text.Utf8
/-!
# Caret snippets

A positioned error is shown with the source around it: a header naming the error, its place
and its message, a blank line, the source line before (if any), the line itself, a line with a
caret under the column, and the line after (if any). Source lines are numbered in a field four
wide. Lines are the pieces between line feeds; a line number past the last line is taken as the
last line, and a column below 1 as 1.
-/

namespace Monkey.Text

/-- The lines of a byte string: the pieces between line feeds, at least one. -/
def splitLines : List UInt8 → List (List UInt8)
  | [] => [[]]
  | b :: rest =>
    match splitLines rest with
    | [] => [[b]]
    | first :: more => if b = 10 then [] :: first :: more else (b :: first) :: more

/-- A number right-aligned in a field of the given width. -/
def padNat (width n : Nat) : String :=
  let s := toString n
  String.ofList (List.replicate (width - s.length) ' ') ++ s

/-- A numbered source line: the number in a field four wide, a bar, then the line. -/
def numberedLine (n : Nat) (line : List UInt8) : List UInt8 :=
  bytes (padNat 4 n ++ " | ") ++ line ++ [10]

/-- The caret snippet of an error: `label` names the kind of error, `name` the source (empty
when it has none), `line` and `col` the place (both from 1), `msg` the message. -/
def snippet (src : List UInt8) (label name : String) (line col : Nat) (msg : String) :
    List UInt8 :=
  let lines := splitLines src
  let line := min (max line 1) lines.length
  let col := max col 1
  let header :=
    if name.isEmpty then label ++ " at " ++ toString line ++ ":" ++ toString col ++ ": " ++ msg
    else label ++ " in " ++ name ++ " at " ++ toString line ++ ":" ++ toString col ++ ": " ++ msg
  let before := if line > 1 then numberedLine (line - 1) (lines.getD (line - 2) []) else []
  let after := if line < lines.length then numberedLine (line + 1) (lines.getD line []) else []
  bytes (header ++ "\n\n") ++ before ++ numberedLine line (lines.getD (line - 1) []) ++
    bytes ("     | " ++ String.ofList (List.replicate (col - 1) ' ') ++ "^\n") ++ after

end Monkey.Text
