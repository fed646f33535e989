/-!
# Reading input lines

Input from a pipe is read line by line through a buffer of 4096 bytes. A line ends at a line
feed, which is dropped together with a carriage return just before it. A line that does not fit
the buffer is handed over in pieces of 4096 bytes; a piece never ends in a carriage return, which
is kept for the next piece instead. The last line needs no line feed, and then keeps a carriage
return at its end.
-/

namespace Monkey.Text

/-- The size of the line buffer. -/
def lineBuffer : Nat := 4096

/-- A byte string without one carriage return at its end. -/
def dropCarriageReturn (bs : List UInt8) : List UInt8 :=
  if bs.getLast? = some 13 then bs.dropLast else bs

/-- The next line of an input and how many bytes reading it consumes. -/
def nextLine (bs : List UInt8) : List UInt8 × Nat :=
  let window := bs.take lineBuffer
  match window.idxOf? 10 with
  | some k => (dropCarriageReturn (bs.take k), k + 1)
  | none =>
    if lineBuffer ≤ bs.length then
      if window.getLast? = some 13 then (bs.take (lineBuffer - 1), lineBuffer - 1)
      else (window, lineBuffer)
    else (bs, bs.length)

/-- Reading a line from a non-empty input consumes at least one byte. -/
theorem nextLine_consumes {bs : List UInt8} (h : bs ≠ []) : 0 < (nextLine bs).2 := by
  have hlen : 0 < bs.length := List.length_pos_iff.mpr h
  unfold nextLine
  rcases hk : List.idxOf? 10 (bs.take lineBuffer) with _ | k
  · simp only [hk]
    split
    · split <;> simp [lineBuffer]
    · exact hlen
  · simp [hk]

/-- The lines of an input, as the line reader hands them over. -/
def readLines (bs : List UInt8) : List (List UInt8) :=
  if h : bs = [] then []
  else
    have : bs.length - (nextLine bs).2 < bs.length := by
      have := nextLine_consumes h
      have : 0 < bs.length := List.length_pos_iff.mpr h
      omega
    (nextLine bs).1 :: readLines (bs.drop (nextLine bs).2)
termination_by bs.length

end Monkey.Text
