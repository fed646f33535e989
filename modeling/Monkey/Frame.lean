import Monkey.Value
/-!
# Frames and the store

A frame holds bindings from names to values and may extend an outer frame. Looking a name up
tries the frame, then its outer frame, and so on. Binding a name again replaces its value; the
bindings of a frame are kept sorted by name, one per name.

Frames live in a store and are named by their place in it. Closures name the frame they were
made in, so a frame is shared by every closure made in it, and a binding made later is seen by
closures made earlier. A frame's outer frame always stands before it in the store.
-/

namespace Monkey

/-- A frame: the frame it extends, if any, and its bindings sorted by name. -/
structure Frame where
  outer : Option FrameId
  bindings : List (String × Value)

/-- Binds a name in a list sorted by name, replacing an earlier binding of the name. -/
def insertBinding (name : String) (v : Value) : List (String × Value) → List (String × Value)
  | [] => [(name, v)]
  | (n, w) :: rest =>
    if name < n then (name, v) :: (n, w) :: rest
    else if name = n then (name, v) :: rest
    else (n, w) :: insertBinding name v rest

/-- The frames of a run, by place. -/
structure Store where
  frames : Array Frame

namespace Store

/-- The place of the global frame. -/
def global : FrameId := 0

/-- A store holding only an empty global frame. -/
def init : Store := ⟨#[⟨none, []⟩]⟩

/-- Adds an empty frame extending `outer`; its place is returned with the new store. -/
def push (s : Store) (outer : Option FrameId) : FrameId × Store :=
  (s.frames.size, ⟨s.frames.push ⟨outer, []⟩⟩)

/-- Binds a name in a frame, replacing an earlier binding of the name there. -/
def define (s : Store) (id : FrameId) (name : String) (v : Value) : Store :=
  ⟨s.frames.modify id fun f => { f with bindings := insertBinding name v f.bindings }⟩

/-- The bindings of a frame, sorted by name. -/
def bindings (s : Store) (id : FrameId) : List (String × Value) :=
  match s.frames[id]? with
  | some f => f.bindings
  | none => []

/-- Whether a frame extends another. -/
def hasOuter (s : Store) (id : FrameId) : Bool :=
  match s.frames[id]? with
  | some f => f.outer.isSome
  | none => false

/-- The value of a name seen from a frame: its binding there, else in the frames it extends. -/
def lookup (s : Store) (id : FrameId) (name : String) : Option Value :=
  match s.frames[id]? with
  | none => none
  | some f =>
    match f.bindings.lookup name with
    | some v => some v
    | none =>
      match f.outer with
      | some o => if o < id then s.lookup o name else none
      | none => none
termination_by id

end Store

end Monkey
