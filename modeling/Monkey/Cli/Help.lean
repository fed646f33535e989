import Monkey.Cli.Flags
/-!
# Help pages

The pages printed when help is asked for, or after the complaint about a misused command line.
A command's page names the command and its purpose, shows how it is called and lists its
options: its own flags sorted, or the help flag when it has none. The program's page lists the
commands and the global options, sorted with the help flag among them. Help for an empty
command name prints a third page, with the commands indented further and the global options in
their defined order.

An option line is the option's names, a tab, then what it does, its current default and the
environment variable it reads. Neighbouring lines that hold a tab form a block, and within a
block the text before the tab is padded to the widest such text of the block plus two spaces, so
the descriptions line up.
-/

namespace Monkey.Cli

/-- A command: its name and other names, what it does, the arguments it takes as help shows
them (empty for any), and its flags. -/
structure CommandSpec where
  name : String
  aliases : List String := []
  usage : String
  argsUsage : String := ""
  flags : List FlagSpec := []

/-- The flag that asks for a help page. Every command and the program itself accept it. -/
def helpFlag : FlagSpec :=
  { name := "help", aliases := ["h"], kind := .bool, usage := "show help", initial := .bool false }

/-- The command that prints help pages, listed after the others. -/
def helpCommand : CommandSpec :=
  { name := "help", aliases := ["h"], usage := "Shows a list of commands or help for one command",
    argsUsage := "[command]" }

/-- A value as help shows it for a default: a boolean or integer as written, a text quoted, and
an empty text not at all. -/
def FlagValue.defaultText : FlagValue → String
  | .bool b => toString b
  | .int n => toString n
  | .text s => if s.isEmpty then "" else Text.Quoted.debug (Text.bytes s)

/-- A flag's help line for its current value: its names, each followed by `value` when it takes
one, a tab, what it does, the default, and the environment variable it reads. -/
def FlagSpec.helpLine (spec : FlagSpec) (value : FlagValue) : String :=
  let placeholder := match spec.kind with
    | .bool => ""
    | _ => " value"
  let names := ", ".intercalate ((spec.name :: spec.aliases).map fun n =>
    (if n.length = 1 then "-" else "--") ++ n ++ placeholder)
  let shown := value.defaultText
  let dflt := if shown.isEmpty then "" else " (default: " ++ shown ++ ")"
  let hint := match spec.env with
    | some var => " [$" ++ var ++ "]"
    | none => ""
  names ++ "\t" ++ spec.usage ++ dflt ++ hint

/-- The help lines of flags, sorted, each with the value the environment gave it or its
initial one. -/
def flagLines (flags : List FlagSpec) (values : FlagValues) : List String :=
  let lines := flags.map fun f => f.helpLine ((values.lookup f.name).getD f.initial)
  lines.mergeSort fun a b => !decide (b < a)

/-- Pads the text before the tab of each line of a block, given in reverse, to two spaces past
the widest of them. -/
def alignBlock (block : List (String × String)) : List String :=
  let width := block.foldl (fun w cell => max w cell.1.length) 0 + 2
  block.reverse.map fun (cell, rest) => cell.pushn ' ' (width - cell.length) ++ rest

/-- Lines with their tab-separated columns lined up: neighbouring lines that hold a tab form a
block, and each block is padded on its own. -/
def alignColumns (lines : List String) : List String :=
  let step (acc : List String × List (String × String)) (line : String) :=
    match line.splitOn "\t" with
    | [cell, rest] => (acc.1, (cell, rest) :: acc.2)
    | _ => (acc.1 ++ alignBlock acc.2 ++ [line], [])
  let (done, block) := lines.foldl step ([], [])
  done ++ alignBlock block

/-- A page from its lines: aligned, and each line ended by a line feed. -/
def page (lines : List String) : String :=
  String.join ((alignColumns lines).map (· ++ "\n"))

/-- The names of a command as a listing shows them. -/
def CommandSpec.names (cmd : CommandSpec) : String := ", ".intercalate (cmd.name :: cmd.aliases)

/-- The help page of a command of the program `prog`, with its flags' current values. A command
with flags of its own lists those, sorted; one without lists the help flag. -/
def CommandSpec.help (prog : String) (cmd : CommandSpec) (values : FlagValues) : String :=
  let args := if cmd.argsUsage.isEmpty then "[arguments...]" else cmd.argsUsage
  let options := if cmd.flags.isEmpty then [helpFlag.helpLine helpFlag.initial]
    else flagLines cmd.flags values
  page (["NAME:", "   " ++ prog ++ " " ++ cmd.name ++ " - " ++ cmd.usage, "",
    "USAGE:", "   " ++ prog ++ " " ++ cmd.name ++ " [command options] " ++ args, "",
    "OPTIONS:"] ++ options.map ("   " ++ ·) ++ ["   "])

/-- The help page of the program `prog`, which does `usage`, with its commands and its global
flags' current values, sorted with the help flag among them. -/
def appHelp (prog usage : String) (commands : List CommandSpec) (flags : List FlagSpec)
    (values : FlagValues) : String :=
  page (["NAME:", "   " ++ prog ++ " - " ++ usage, "",
    "USAGE:", "   " ++ prog ++ " [global options] command [command options] [arguments...]", "",
    "COMMANDS:"] ++ (commands ++ [helpCommand]).map (fun c => "   " ++ c.names ++ "\t" ++ c.usage) ++
    ["", "GLOBAL OPTIONS:"] ++ (flagLines (flags ++ [helpFlag]) values).map ("   " ++ ·) ++ ["   "])

/-- The page that help for an empty command name prints: the program's commands, indented
further, and its global flags in the order they are defined, the help flag last. -/
def commandListHelp (prog usage : String) (commands : List CommandSpec) (flags : List FlagSpec)
    (values : FlagValues) : String :=
  let options := (flags ++ [helpFlag]).map fun f => f.helpLine ((values.lookup f.name).getD f.initial)
  page (["NAME:", "   " ++ prog ++ " - " ++ usage, "",
    "USAGE:", "   " ++ prog ++ " command [command options] [arguments...]", "",
    "COMMANDS:"] ++ (commands ++ [helpCommand]).map (fun c => "     " ++ c.names ++ "\t" ++ c.usage) ++
    ["", "OPTIONS:"] ++ options.map ("   " ++ ·) ++ ["   "])

end Monkey.Cli
