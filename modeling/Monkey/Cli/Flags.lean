import Monkey.Text.Quoted
/-!
# Command-line flags

Flags come before the other arguments, each as `-name` or `--name`. A boolean flag is set by its
name alone, or given `=value`; a flag with a value takes it after `=` or as the next argument.
The first argument that is not a flag ends the flags, and so does `--`, which is dropped. A flag
may go by other names too (`-h` for `--help`), but setting it under two of them is refused.

A flag may also take its value from an environment variable, which counts as the flag's default:
a flag on the command line wins over it.

Booleans read as `1`, `t`, `T`, `TRUE`, `true`, `True` and the matching spellings of false.
Integers have an optional sign and are decimal, or octal after a leading `0` or `0o`, binary
after `0b`, hexadecimal after `0x`; underscores may separate digits. They must fit in 64 bits.
-/

namespace Monkey.Cli

/-- The kind of value a flag takes. -/
inductive FlagKind where
  | bool
  | int
  | text

/-- A value given to a flag. -/
inductive FlagValue where
  | bool (b : Bool)
  | int (n : Int)
  | text (s : String)

/-- A flag: its name and other names, its kind, the environment variable that may supply its
value, what help says it does, and its value when nothing sets it. -/
structure FlagSpec where
  name : String
  aliases : List String := []
  kind : FlagKind
  env : Option String := none
  usage : String := ""
  initial : FlagValue

/-- Flag values by name; the first entry for a name is the one in force. -/
abbrev FlagValues := List (String × FlagValue)

/-- Reads a boolean. -/
def parseBool? (s : String) : Option Bool :=
  if s = "1" || s = "t" || s = "T" || s = "TRUE" || s = "true" || s = "True" then some true
  else if s = "0" || s = "f" || s = "F" || s = "FALSE" || s = "false" || s = "False" then
    some false
  else none

/-- Why a text is not an integer. -/
inductive IntFault where
  | malformed
  | range

/-- The wording of an integer fault. -/
def IntFault.message : IntFault → String
  | .malformed => "invalid syntax"
  | .range => "value out of range"

/-- The value of a digit in bases up to sixteen. -/
def digitValue (c : Char) : Option Nat :=
  if '0' ≤ c && c ≤ '9' then some (c.toNat - 48)
  else if 'a' ≤ c && c ≤ 'f' then some (c.toNat - 87)
  else if 'A' ≤ c && c ≤ 'F' then some (c.toNat - 55)
  else none

/-- Whether underscores stand only between digits, or between a base prefix and a digit. -/
def underscoresOk (s : List Char) : Bool :=
  let s := match s with
    | '+' :: r | '-' :: r => r
    | r => r
  -- the last class seen: `^` start, `0` digit or prefix, `_` underscore, `!` anything else
  let (start, hex, rest) : Char × Bool × List Char := match s with
    | '0' :: c :: r =>
      let l := c.toLower
      if l = 'b' || l = 'o' || l = 'x' then ('0', l = 'x', r) else ('^', false, s)
    | _ => ('^', false, s)
  let step (st : Option Char) (c : Char) : Option Char :=
    match st with
    | none => none
    | some saw =>
      if ('0' ≤ c && c ≤ '9') || (hex && 'a' ≤ c.toLower && c.toLower ≤ 'f') then some '0'
      else if c = '_' then (if saw = '0' then some '_' else none)
      else if saw = '_' then none
      else some '!'
  match rest.foldl step (some start) with
  | some saw => saw != '_'
  | none => false

/-- Reads the digits of an unsigned integer in a base, failing on a bad digit or on a value
past 64 bits, whichever comes first. -/
def readDigits (base : Nat) : Nat → List Char → Except IntFault Nat
  | n, [] => .ok n
  | n, '_' :: r => readDigits base n r
  | n, c :: r =>
    match digitValue c with
    | some d =>
      if d < base then
        if n * base + d < 18446744073709551616 then readDigits base (n * base + d) r else .error .range
      else .error .malformed
    | none => .error .malformed

/-- The magnitude just past the largest 64-bit signed integer, 2⁶³; it is the magnitude of the
smallest one. -/
def int64Bound : Nat := 9223372036854775808

/-- Reads a 64-bit integer with an optional sign and a base prefix. -/
def parseInt (s : String) : Except IntFault Int :=
  let (neg, body) := match s.toList with
    | '+' :: r => (false, r)
    | '-' :: r => (true, r)
    | r => (false, r)
  if body.isEmpty then .error .malformed
  else
    let (base, digits) := match body with
      | '0' :: c :: d :: r =>
        if c = 'b' || c = 'B' then (2, d :: r)
        else if c = 'o' || c = 'O' then (8, d :: r)
        else if c = 'x' || c = 'X' then (16, d :: r)
        else (8, c :: d :: r)
      | '0' :: r => (8, r)
      | r => (10, r)
    match readDigits base 0 digits with
    | .error f => .error f
    | .ok n =>
      if digits.contains '_' && !underscoresOk s.toList then .error .malformed
      else if neg then (if n ≤ int64Bound then .ok (-(n : Int)) else .error .range)
      else if n < int64Bound then .ok n else .error .range

/-- Sets a flag from a text, as a command line gives it. -/
def FlagSpec.read (spec : FlagSpec) (value : String) : Except String FlagValue :=
  match spec.kind with
  | .bool =>
    match parseBool? value with
    | some b => .ok (.bool b)
    | none => .error ("invalid boolean value " ++ Text.Quoted.debug (Text.bytes value) ++
        " for -" ++ spec.name ++ ": parse error")
  | .int =>
    match parseInt value with
    | .ok n => .ok (.int n)
    | .error f => .error ("invalid value " ++ Text.Quoted.debug (Text.bytes value) ++
        " for flag -" ++ spec.name ++ ": " ++ (match f with
          | .malformed => "parse error"
          | .range => "value out of range"))
  | .text => .ok (.text value)

/-- Whether a flag goes by a name, its own or another. -/
def FlagSpec.answersTo (spec : FlagSpec) (n : String) : Bool :=
  spec.name == n || spec.aliases.contains n

/-- Reads the flags at the front of the arguments. The values set so far come first, latest
first, each under the name it was given by; then either the arguments after the flags or why
the flags do not read. -/
def parseFlags (specs : List FlagSpec) : FlagValues → List String →
    FlagValues × Except String (List String)
  | acc, [] => (acc, .ok [])
  | acc, a :: rest =>
    match a.toList with
    | '-' :: c :: more =>
      let body := if c = '-' then more else c :: more
      if c = '-' && more.isEmpty then (acc, .ok rest)
      else
        match body with
        | [] | '-' :: _ | '=' :: _ => (acc, .error ("bad flag syntax: " ++ a))
        | b :: bs =>
          let name := String.ofList (b :: bs.takeWhile (· != '='))
          let given := if bs.contains '=' then some (String.ofList ((bs.dropWhile (· != '=')).drop 1))
            else none
          match specs.find? (·.answersTo name) with
          | none => (acc, .error ("flag provided but not defined: -" ++ name))
          | some spec =>
            match spec.kind, given with
            | .bool, none => parseFlags specs ((name, .bool true) :: acc) rest
            | _, some v =>
              match { spec with name }.read v with
              | .ok fv => parseFlags specs ((name, fv) :: acc) rest
              | .error e => (acc, .error e)
            | _, none =>
              match rest with
              | v :: rest' =>
                match { spec with name }.read v with
                | .ok fv => parseFlags specs ((name, fv) :: acc) rest'
                | .error e => (acc, .error e)
              | [] => (acc, .error ("flag needs an argument: -" ++ name))
    | _ => (acc, .ok (a :: rest))

/-- The complaint about a flag set under two of its names: the second of them set, in the order
the flag lists its names, and the first. -/
def twoForms (specs : List FlagSpec) (given : FlagValues) : Option String :=
  specs.findSome? fun spec =>
    match (spec.name :: spec.aliases).filter fun n => given.any (·.1 == n) with
    | first :: second :: _ =>
      some ("Cannot use two forms of the same flag: " ++ second ++ " " ++ first)
    | _ => none

/-- The default the environment gives to one flag, added to those found so far, or the failure
to read it. An empty boolean reads as false; an empty integer gives nothing. -/
def envDefault (env : List (String × String)) (acc : FlagValues) (spec : FlagSpec) :
    Except String FlagValues :=
  match spec.env with
  | none => .ok acc
  | some var =>
    match env.lookup var with
    | none => .ok acc
    | some raw =>
      let failed (kind func why : String) : Except String FlagValues :=
        .error ("could not parse " ++ Text.Quoted.debug (Text.bytes raw) ++ " as " ++ kind ++
          " value from environment variable " ++ Text.Quoted.debug (Text.bytes var) ++
          " for flag " ++ spec.name ++ ": strconv." ++ func ++ ": parsing " ++
          Text.Quoted.debug (Text.bytes raw) ++ ": " ++ why)
      match spec.kind with
      | .bool =>
        if raw.isEmpty then .ok ((spec.name, .bool false) :: acc)
        else match parseBool? raw with
          | some b => .ok ((spec.name, .bool b) :: acc)
          | none => failed "bool" "ParseBool" "invalid syntax"
      | .int =>
        if raw.isEmpty then .ok acc
        else match parseInt raw with
          | .ok n => .ok ((spec.name, .int n) :: acc)
          | .error f => failed "int" "ParseInt" f.message
      | .text => .ok ((spec.name, .text raw) :: acc)

/-- The defaults the environment gives to flags, in the order of the flags; the first value
that does not read stops with its failure. -/
def envDefaults (specs : List FlagSpec) (env : List (String × String)) :
    Except String FlagValues :=
  specs.foldlM (envDefault env) []

/-- The boolean value of a flag, false when unset. -/
def FlagValues.bool (vs : FlagValues) (name : String) : Bool :=
  match vs.lookup name with
  | some (.bool b) => b
  | _ => false

/-- The integer value of a flag, or a default when unset. -/
def FlagValues.int (vs : FlagValues) (name : String) (default : Int) : Int :=
  match vs.lookup name with
  | some (.int n) => n
  | _ => default

end Monkey.Cli
