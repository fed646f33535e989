import Monkey.Cli
import Std.Time
/-!
# The program

Gathers the command line, the environment variables the program reads, the files its
arguments name and a time stamp, runs the command, and writes its console writes to the real
streams, prompts to standard output. It exits with the command's exit code.

A command that reads standard input reads it whole, and only once it is known to need it. The read-eval-print loop reads it line by
line, as a line reader with a buffer of 4096 bytes hands the lines over, and answers each line
as it comes.
-/

open Monkey

/-- Writes console writes to the process's streams. -/
def emit (out err : IO.FS.Stream) (ws : List Console.Write) : IO Unit := do
  for w in ws do
    match w with
    | .out bs => out.write (ByteArray.mk bs.toArray)
    | .err bs => err.write (ByteArray.mk bs.toArray)
    | .prompt p => out.putStr p
  out.flush
  err.flush

/-- The next line of standard input, reading more only when the buffer holds no whole line:
the line, or `none` at the end of input, and the bytes left over. -/
partial def nextInput (stdin : IO.FS.Stream) (buf : List UInt8) :
    IO (Option (List UInt8) × List UInt8) := do
  let window := buf.take Text.lineBuffer
  if window.contains 10 || Text.lineBuffer ≤ buf.length then
    let (line, n) := Text.nextLine buf
    return (some line, buf.drop n)
  let chunk ← stdin.read 4096
  if chunk.isEmpty then
    if buf.isEmpty then return (none, [])
    let (line, n) := Text.nextLine buf
    return (some line, buf.drop n)
  nextInput stdin (buf ++ chunk.toList)

/-- Runs the read-eval-print loop on standard input, writing as it goes. -/
partial def interact (stdin out err : IO.FS.Stream) (r : Repl) (pending : List UInt8)
    (buf : List UInt8) (shown : Nat) : IO Unit := do
  let r := r.ask pending
  emit out err (r.console.writes.toList.drop shown)
  let shown := r.console.writes.size
  let (line, buf) ← nextInput stdin buf
  match r.feed pending (line.map Input.line) with
  | (r, some pending) => interact stdin out err r pending buf shown
  | (r, none) => emit out err (r.console.writes.toList.drop shown)

/-- The time stamp of trace lines: the local date and time to the millisecond. -/
def stamp : IO String := do
  let now ← Std.Time.PlainDateTime.now
  return now.format "uuuu-MM-dd'T'HH:mm:ss.SSS" ++ "Z"

/-- Reads a file, if there is one by that name. -/
def readIfFile (name : String) : IO (Option (String × List UInt8)) := do
  try
    let bs ← IO.FS.readBinFile name
    return some (name, bs.toList)
  catch _ => return none

def main (args : List String) : IO UInt32 := do
  let vars := ["MONKEY_STRICT", "MONKEY_MAX_DEPTH", "MONKEY_TRACE", "MONKEY_HISTORY"]
  let mut env := []
  for v in vars do
    if let some x ← IO.getEnv v then env := env ++ [(v, x)]
  let mut files := []
  for a in args do
    if let some f ← readIfFile a then files := files ++ [f]
  let inv : Cli.Invocation := { args, env, files, stamp := ← stamp }
  let stdin ← IO.getStdin
  let out ← IO.getStdout
  let err ← IO.getStderr
  match Cli.start inv with
  | .interactive r =>
    interact stdin out err r [] [] 0
    return 0
  | .finished o =>
    emit out err o.console.writes.toList
    return o.exit.toUInt32
  | .reading resume =>
    let input ← stdin.readBinToEnd
    let o := resume input.toList
    emit out err o.console.writes.toList
    return o.exit.toUInt32
