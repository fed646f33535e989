import Monkey.Syntax
import Monkey.Text.Quoted
/-!
# Values

Values are null, booleans, 32-bit integers, byte strings and closures. A closure keeps its
parameter names, its body and the frame it was made in, named by its place in the store.
Strings have no literal in the language; they come from the host.

A value has two texts: the display form, used for results (strings quoted with five escapes,
functions as their source), and the debug form, used in traces (strings quoted with every
unprintable character escaped, functions as `<fun/N>` for N parameters).
-/

namespace Monkey

/-- The place of a frame in the store. -/
abbrev FrameId := Nat

/-- Runtime values. -/
inductive Value where
  | null
  | bool (b : Bool)
  | int (n : Int32)
  | str (bytes : List UInt8)
  | closure (params : List String) (body : List Stmt) (env : FrameId)

/-- The kinds of value, as named in messages. -/
inductive Value.Tag where
  | null
  | bool
  | int
  | string
  | function
deriving DecidableEq, Repr

namespace Value.Tag

/-- The name of a kind of value. -/
def name : Value.Tag → String
  | null => "null"
  | bool => "bool"
  | int => "int"
  | string => "string"
  | function => "function"

end Value.Tag

namespace Value

/-- The kind of a value. -/
def tag : Value → Tag
  | null => .null
  | bool _ => .bool
  | int _ => .int
  | str _ => .string
  | closure .. => .function

/-- Conditions hold unless they are null or false. -/
def truthy : Value → Bool
  | null => false
  | bool b => b
  | _ => true

/-- The display form of a value, used for results. -/
def display : Value → String
  | null => "null"
  | bool b => if b then "true" else "false"
  | int n => toString n.toInt
  | str s => Text.Quoted.display s
  | closure params body _ => "fn(" ++ joinWith ", " params ++ ") " ++ renderBlock body

/-- The debug form of a value, used in traces. -/
def debug : Value → String
  | null => "null"
  | bool b => if b then "true" else "false"
  | int n => toString n.toInt
  | str s => Text.Quoted.debug s
  | closure params _ _ => "<fun/" ++ toString params.length ++ ">"

end Value

end Monkey
