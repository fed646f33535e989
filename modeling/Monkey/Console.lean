import Monkey.Eval.Trace
import Monkey.Text.Json
/-!
# Console output

A program writes to a console: results to standard output, errors and trace lines to standard
error, and prompts to the terminal ahead of reading a line. The console keeps every write in
order, so that each stream can be read off alone, or the terminal's output with prompts and
results interleaved as a user would see them.

A trace line is a time stamp, the level `DEBUG`, the event's message and its fields as a JSON
object, separated by tabs.
-/

namespace Monkey

/-- One write to the console. -/
inductive Console.Write where
  | out (bytes : List UInt8)
  | err (bytes : List UInt8)
  | prompt (text : String)

/-- The writes made so far, in order. -/
structure Console where
  writes : Array Console.Write := #[]

namespace Console

/-- Writes bytes to standard output. -/
def out (c : Console) (bs : List UInt8) : Console := ⟨c.writes.push (.out bs)⟩

/-- Writes text to standard output. -/
def outText (c : Console) (s : String) : Console := c.out (Text.bytes s)

/-- Writes bytes to standard error. -/
def err (c : Console) (bs : List UInt8) : Console := ⟨c.writes.push (.err bs)⟩

/-- Shows a prompt. -/
def prompt (c : Console) (p : String) : Console := ⟨c.writes.push (.prompt p)⟩

/-- Everything written to standard output. -/
def stdout (c : Console) : List UInt8 :=
  c.writes.toList.flatMap fun | .out bs => bs | _ => []

/-- Everything written to standard error. -/
def stderr (c : Console) : List UInt8 :=
  c.writes.toList.flatMap fun | .err bs => bs | _ => []

/-- The prompts shown, in order. -/
def prompts (c : Console) : List String :=
  c.writes.toList.filterMap fun | .prompt p => some p | _ => none

/-- The prompts shown, as the bytes the terminal received. -/
def promptBytes (c : Console) : List UInt8 :=
  c.writes.toList.flatMap fun | .prompt p => Text.bytes p | _ => []

/-- Standard output with the prompts in place, as a terminal shows them. -/
def terminal (c : Console) : List UInt8 :=
  c.writes.toList.flatMap fun
    | .out bs => bs
    | .prompt p => Text.bytes p
    | .err _ => []

end Console

/-- The fields of a trace event as a JSON object, with `": "` and `", "` between parts. -/
def Trace.fieldsJson (t : Trace) : String :=
  let parts := t.fields.map fun (k, v) =>
    Text.jsonQuote .log (Text.bytes k) ++ ": " ++ Text.jsonQuote .log (Text.bytes v)
  "\x7b" ++ ", ".intercalate parts ++ "\x7d"

/-- A trace event as a console line, after a time stamp. -/
def Trace.consoleLine (stamp : String) (t : Trace) : List UInt8 :=
  Text.bytes (stamp ++ "\tDEBUG\t" ++ t.message ++ "\t" ++ t.fieldsJson ++ "\n")

end Monkey
