import Monkey.Interpreter
import Monkey.Console
import Monkey.Text.Blank
/-!
# The read-eval-print loop

The loop asks for a line with the prompt `>> `, evaluates it in one interpreter and writes the
display form of the value, or the error, and asks again. While the lines read so far parse as an
incomplete program it keeps reading with the prompt `.. `, joining the lines with line feeds.
An interrupt drops the pending input; the end of input writes a line feed and ends the loop.

Input whose trimmed text starts with `:` is a command, matched without regard to case: `:quit`
or `:q` ends the loop at once, `:help` lists the commands, `:env` lists the global bindings;
anything else is an unknown command. Blank input is passed over. Each evaluated input that
succeeds is remembered, with its line feeds as spaces.
-/

namespace Monkey

/-- What the line reader answers when asked for a line. -/
inductive Input where
  | line (bytes : List UInt8)
  | interrupt

/-- The commands of the loop. -/
inductive Command where
  | quit
  | help
  | env
  | unknown

/-- The loop's state: the interpreter, the console written so far, the inputs remembered, and
the time stamp of trace lines. -/
structure Repl where
  ip : Interpreter
  console : Console := {}
  history : Array (List UInt8) := #[]
  stamp : String := ""

namespace Repl

/-- The prompt for a fresh input. -/
def mainPrompt : String := ">> "

/-- The prompt for a continued input. -/
def morePrompt : String := ".. "

/-- The text of `:help`. -/
def helpText : String :=
  "\nREPL commands:\n  :env     List the session's global bindings\n  :help    Show this help\n" ++
    "  :quit    Exit the REPL\n"

/-- The lowercase of a character as far as command names can tell: the ASCII capitals, and the
two capitals outside ASCII whose lowercase is an ASCII letter (I with dot above, Kelvin sign).
Every other character has no ASCII lowercase, so keeping it decides the same matches. -/
def commandFold (c : Char) : Char :=
  if 'A' ≤ c && c ≤ 'Z' then Char.ofNat (c.toNat + 32)
  else if c.toNat = 0x130 then 'i'
  else if c.toNat = 0x212A then 'k'
  else c

/-- The command a trimmed input names. -/
def commandOf (trimmed : List UInt8) : Command :=
  let key := (Text.Utf8.decode trimmed).map fun
    | .char c => Text.Piece.char (commandFold c)
    | p => p
  let is (name : String) : Bool := key == Text.Utf8.decode (Text.bytes name)
  if is ":quit" || is ":q" then .quit
  else if is ":help" then .help
  else if is ":env" then .env
  else .unknown

/-- The listing of `:env`: each global binding as `name = value`, sorted by name. -/
def envListing (ip : Interpreter) : String :=
  String.join <| (ip.bindings Interpreter.global).map fun (n, v) => n ++ " = " ++ v.display ++ "\n"

/-- A byte string without line feeds at its end. -/
def dropTrailingNewlines (bs : List UInt8) : List UInt8 :=
  (bs.reverse.dropWhile (· == 10)).reverse

/-- Evaluates an input: writes the trace lines, then the value or the error. -/
def evaluate (r : Repl) (code : List UInt8) : Repl :=
  let (res, ip) := r.ip.evalSource code
  let (traces, ip) := ip.takeTrace
  let console := traces.foldl (fun c t => c.err (t.consoleLine r.stamp)) r.console
  match res with
  | .ok v =>
    { r with ip, console := console.outText (v.display ++ "\n"),
             history := r.history.push (code.map fun b => if b = 10 then 32 else b) }
  | .error f =>
    { r with ip, console := console.err (dropTrailingNewlines (f.pretty "" code) ++ [10]) }

/-- The prompt for the next line: `>> ` for a fresh input, `.. ` while input is pending. -/
def promptFor (pending : List UInt8) : String :=
  if pending.isEmpty then mainPrompt else morePrompt

/-- Shows the prompt for the next line. -/
def ask (r : Repl) (pending : List UInt8) : Repl :=
  { r with console := r.console.prompt (promptFor pending) }

/-- Handles a complete input: blank input is passed over, a command is carried out, anything
else is evaluated. The result is the state after it, or `none` in place of the pending input
once the loop has ended. -/
def handle (r : Repl) (src : List UInt8) : Repl × Option (List UInt8) :=
  let trimmed := Text.trimBlank src
  if trimmed.isEmpty then (r, some [])
  else if trimmed.head? = some 58 then
    match commandOf trimmed with
    | .quit => (r, none)
    | .help => ({ r with console := r.console.outText helpText }, some [])
    | .env => ({ r with console := r.console.outText (envListing r.ip) }, some [])
    | .unknown =>
      let msg := Text.bytes "unknown command " ++ trimmed ++ Text.bytes ". Type :help for commands.\n"
      ({ r with console := r.console.out msg }, some [])
  else (r.evaluate src, some [])

/-- What the loop does with one answer of the line reader, or with the end of input (`none`):
the state after it, and the pending input, or `none` once the loop has ended. A line completes
the pending input unless it starts no command and the joined input parses as incomplete. -/
def feed (r : Repl) (pending : List UInt8) : Option Input → Repl × Option (List UInt8)
  | none => ({ r with console := r.console.outText "\n" }, none)
  | some .interrupt => (r, some [])
  | some (.line l) =>
    let src := if pending.isEmpty then l else pending ++ [10] ++ l
    let command := (Text.trimBlank src).head? = some 58
    let incomplete := match Program.parse src with
      | .error f => f.incomplete
      | .ok _ => false
    if !command && incomplete then (r, some src) else r.handle src

/-- Runs the loop over a sequence of inputs, followed by the end of input; `pending` is the
incomplete input read so far. -/
def loop (r : Repl) (pending : List UInt8) : List Input → Repl
  | [] => ((r.ask pending).feed pending none).1
  | input :: rest =>
    match (r.ask pending).feed pending (some input) with
    | (r, some pending) => loop r pending rest
    | (r, none) => r

/-- Runs the loop from a fresh input over a sequence of inputs. -/
def run (r : Repl) (inputs : List Input) : Repl := r.loop [] inputs

end Repl

end Monkey
