import Monkey.Cli.Flags
import Monkey.Cli.Help
import Monkey.Cli.Listing
import Monkey.Repl
import Monkey.Text.Lines
/-!
# The command line

`monkey [global flags] command [flags] [arguments]`. The global flags are `--strict`,
`--max-depth N`, `--trace` and `--no-color`; the first three also read `MONKEY_STRICT`,
`MONKEY_MAX_DEPTH` and `MONKEY_TRACE`. The commands:

* `run FILE` evaluates a file (`-` for standard input) and prints its value;
* `eval [SOURCE...]` evaluates its arguments joined by spaces, or standard input;
* `tokens [FILE]` lists the tokens (`--table`, `--json`, `--with-eof`);
* `ast [FILE]` prints the program fully parenthesised;
* `version` prints the version;
* `repl` starts the read-eval-print loop on standard input.

A failing command writes its error to standard error, without trailing line feeds and then one
line feed, and exits with 1; a misused `run` exits with 2. Errors of a source come with caret
snippets, under the file's name. With tracing on, trace lines go to standard error as they
happen.

The command line is a function: from the arguments, environment, standard input, the files it
may read and a time stamp for trace lines, to the console writes and an exit code.
-/

namespace Monkey.Cli

/-- The version of the program. -/
def version : String := "dev"

/-- The build date of the program. -/
def buildDate : String := "unknown"

/-- What a run of the program is given. -/
structure Invocation where
  args : List String
  env : List (String × String) := []
  stdin : List UInt8 := []
  files : List (String × List UInt8) := []
  stamp : String := ""

/-- What a run of the program does: its console writes and its exit code. -/
structure Outcome where
  console : Console
  exit : Nat

/-- The name the program goes by in its help pages. -/
def programName : String := "monkey"

/-- What the program does, as its help page says. -/
def programUsage : String := "run and explore Monkey programs"

/-- The global flags. -/
def globalFlags : List FlagSpec :=
  [{ name := "strict", kind := .bool, env := some "MONKEY_STRICT", initial := .bool false,
     usage := "report misuse (type mismatches, unbound names, bad calls) as errors instead of null" },
   { name := "max-depth", kind := .int, env := some "MONKEY_MAX_DEPTH", initial := .int 10000,
     usage := "maximum evaluation nesting (calls, blocks, operators)" },
   { name := "trace", kind := .bool, env := some "MONKEY_TRACE", initial := .bool false,
     usage := "trace statements, conditions and outputs to stderr" },
   { name := "no-color", kind := .bool, initial := .bool false,
     usage := "disable coloured output" }]

/-- The flags of `tokens`. -/
def tokenFlags : List FlagSpec :=
  [{ name := "table", kind := .bool, initial := .bool false, usage := "render an aligned table" },
   { name := "json", kind := .bool, initial := .bool false,
     usage := "emit NDJSON: one JSON object per token" },
   { name := "with-eof", kind := .bool, initial := .bool false, usage := "include the EOF token" }]

/-- The flags of `repl`. -/
def replFlags : List FlagSpec :=
  [{ name := "history", kind := .text, env := some "MONKEY_HISTORY", initial := .text "",
     usage := "history file (default ~/.monkey_history)" }]

/-- The commands, in the order the program's help page lists them. -/
def commands : List CommandSpec :=
  [{ name := "run", usage := "evaluate a source file and print its final value",
     argsUsage := "<file>" },
   { name := "eval",
     usage := "evaluate the arguments as one program (stdin when none) and print the value",
     argsUsage := "[source...]" },
   { name := "repl", usage := "start an interactive session", flags := replFlags },
   { name := "tokens", usage := "print the token stream of a file (stdin when omitted)",
     argsUsage := "[file]", flags := tokenFlags },
   { name := "ast", usage := "print the fully parenthesised syntax tree of a file (stdin when omitted)",
     argsUsage := "[file]" },
   { name := "version", usage := "print the compiled version" }]

/-- The program's help page, with the global flags' values from the environment. -/
def programHelp (values : FlagValues) : String :=
  appHelp programName programUsage commands globalFlags values

/-- Whether the flags given ask for help. -/
def helpAsked (given : FlagValues) : Bool := given.bool "help" || given.bool "h"

/-- The banner of the read-eval-print loop. -/
def banner : String :=
  "Monkey " ++ version ++ " REPL\nCtrl+C cancels input, Ctrl+D exits. Type :help for commands.\n"

/-- Ends a run with an error: its text without trailing line feeds, then one line feed, on
standard error. -/
def fail (c : Console) (msg : List UInt8) (code : Nat) : Outcome :=
  let msg := (msg.reverse.dropWhile (· == 10)).reverse
  { console := if msg.isEmpty then c else c.err (msg ++ [10]), exit := code }

/-- Ends a run successfully. -/
def done (c : Console) : Outcome := { console := c, exit := 0 }

/-- Where a run stands once its command is chosen: finished, waiting for the whole of standard
input, or a read-eval-print loop waiting for the lines of standard input. -/
inductive Start where
  | finished (o : Outcome)
  | reading (resume : List UInt8 → Outcome)
  | interactive (r : Repl)

/-- Goes on with the source a file argument names: standard input for `-` or nothing, else the
file, which must exist. -/
def withSource (inv : Invocation) (c : Console) (file : String) (k : List UInt8 → Outcome) :
    Start :=
  if file.isEmpty || file = "-" then .reading k
  else match inv.files.lookup file with
    | some bs => .finished (k bs)
    | none => .finished (fail c (Text.bytes ("cannot read " ++ file ++ ": open " ++ file ++
        ": no such file or directory")) 1)

/-- The name errors of a file argument are shown under: none for standard input. -/
def sourceName (file : String) : String := if file = "-" then "" else file

/-- Evaluates a source in a fresh interpreter and prints its value, or fails with the error. -/
def runSource (inv : Invocation) (c : Console) (ip : Interpreter) (name : String)
    (src : List UInt8) : Outcome :=
  let (r, ip) := ip.run src
  let c := ip.trace.foldl (fun c t => c.err (t.consoleLine inv.stamp)) c
  match r with
  | .ok out => done (c.outText (out ++ "\n"))
  | .error f => fail c (f.pretty name src) 1

/-- Lists the tokens of a source, then fails with its lexical error if it has one. -/
def listTokens (c : Console) (flags : FlagValues) (name : String) (src : List UInt8) : Outcome :=
  let (ts, fault) := listedTokens src (flags.bool "with-eof")
  let listing :=
    if flags.bool "table" then tokenTable ts
    else if flags.bool "json" then ts.flatMap jsonLine
    else ts.flatMap plainLine
  let c := c.out listing
  match fault with
  | some e => fail c (e.pretty name src) 1
  | none => done c

/-- Prints the program of a source, or fails with its parse failure. -/
def printProgram (c : Console) (name : String) (src : List UInt8) : Outcome :=
  match Program.parse src with
  | .error f => fail c (f.pretty name src) 1
  | .ok p => done (c.outText (p.render ++ "\n"))

/-- Runs a command with its arguments, after the global flags, as far as it goes without
standard input. -/
def command (inv : Invocation) (c : Console) (ip : Interpreter) (name : String)
    (args : List String) : Start :=
  match commands.find? (·.name == name) with
  | none => .finished (fail c (Text.bytes ("No help topic for '" ++ name ++ "'")) 3)
  | some spec =>
    let misuse (defaults : FlagValues) (e : String) : Start :=
      let c := c.outText ("Incorrect Usage: " ++ e ++ "\n\n" ++ spec.help programName defaults)
      .finished (fail c (Text.bytes e) 1)
    match envDefaults spec.flags inv.env with
    | .error e => misuse [] e
    | .ok defaults =>
      let specs := spec.flags ++ [helpFlag]
      let (given, parsed) := parseFlags specs [] args
      match parsed, twoForms specs given with
      | .error e, _ => misuse defaults e
      | .ok _, some e => misuse defaults e
      | .ok args, none =>
        if helpAsked given then .finished (done (c.outText (spec.help programName defaults)))
        else
        let flags := given ++ defaults
        match name with
        | "run" =>
          match args with
          | [file] => withSource inv c file (runSource inv c ip (sourceName file))
          | _ => .finished (fail c (Text.bytes "usage: monkey run <file>") 2)
        | "eval" =>
          match args with
          | [] => .reading (runSource inv c ip "")
          | _ => .finished (runSource inv c ip "" (Text.bytes (" ".intercalate args)))
        | "tokens" =>
          let file := args.headD ""
          withSource inv c file (listTokens c flags (sourceName file))
        | "ast" =>
          let file := args.headD ""
          withSource inv c file (printProgram c (sourceName file))
        | "version" =>
          .finished (done (c.outText ("monkey " ++ version ++ " (built " ++ buildDate ++ ")\n")))
        | _ => .interactive { ip, console := c.outText banner, stamp := inv.stamp }

/-- Starts the program on an invocation: reads the flags and chooses the command. Flags given
under two names of one flag are refused first, then flags that do not read; help asked for, no
command or an empty command name print a help page. -/
def start (inv : Invocation) : Start :=
  let c : Console := {}
  match envDefaults globalFlags inv.env with
  | .error e => .finished (fail c (Text.bytes e) 1)
  | .ok defaults =>
    let specs := globalFlags ++ [helpFlag]
    let (given, parsed) := parseFlags specs [] inv.args
    match twoForms specs given, parsed with
    | some e, _ =>
      .finished (fail (c.outText (e ++ "\n" ++ programHelp defaults)) (Text.bytes e) 1)
    | none, .error e =>
      let c := c.outText ("Incorrect Usage. " ++ e ++ "\n\n" ++ programHelp defaults)
      .finished (fail c (Text.bytes e) 1)
    | none, .ok rest =>
      let flags := given ++ defaults
      let ip := Interpreter.create (flags.bool "strict") (flags.int "max-depth" 0)
        (flags.bool "trace")
      match helpAsked given, rest with
      | true, _ | false, [] => .finished (done (c.outText (programHelp defaults)))
      | false, name :: args =>
        if name.isEmpty then
          .finished (done (c.outText
            (commandListHelp programName programUsage commands globalFlags defaults)))
        else command inv c ip name args

/-- Runs the program on an invocation; the read-eval-print loop reads the lines of standard
input as a line reader hands them over. -/
def run (inv : Invocation) : Outcome :=
  match start inv with
  | .finished o => o
  | .reading resume => resume inv.stdin
  | .interactive r => done (r.run ((Text.readLines inv.stdin).map Input.line)).console

end Monkey.Cli
