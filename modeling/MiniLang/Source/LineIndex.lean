import MiniLang.Diagnostic

/-!
# Lines of a source text

A line index holds the byte offsets at which the lines of a text start, so that the line of any
offset is found by bisection.
-/

namespace MiniLang
namespace Source

/-- The number of bytes that characters take in UTF-8. -/
def byteLength (characters : List Char) : Nat :=
  characters.foldl (fun total character => total + character.utf8Size) 0

/-- The places where the lines of a text start. -/
structure LineIndex where
  /-- Byte offsets of the line starts, ascending.  The first line starts at 0. -/
  starts : Array Nat
  deriving DecidableEq, Repr

namespace LineIndex

/-- The line starts of a text that begins at a byte offset, added to those already found. -/
def scan : List Char -> Nat -> Array Nat -> Array Nat
  | [], _, starts => starts
  | character :: rest, offset, starts =>
    let next := offset + character.utf8Size
    scan rest next (if character = '\n' then starts.push next else starts)

/-- The line index of a text. -/
def ofChars (characters : List Char) : LineIndex :=
  ⟨scan characters 0 #[0]⟩

/-- Where a value stands in an ascending list: at an index, or between two of them. -/
inductive Place where
  /-- The value is the entry of this index. -/
  | found (index : Nat)
  /-- The value is absent; it would have to be inserted before the entry of this index. -/
  | absent (index : Nat)
  deriving DecidableEq, Repr

/-- Look for a value among the entries from `low` up to, but not including, `high`. -/
def bisect (starts : Array Nat) (value low high : Nat) : Place :=
  if _interval : low < high then
    let middle := low + (high - low) / 2
    let entry := starts.getD middle 0
    if entry = value then .found middle
    else if entry < value then bisect starts value (middle + 1) high
    else bisect starts value low middle
  else .absent low
termination_by high - low

/-- Where a byte offset stands among the line starts. -/
def place (lines : LineIndex) (offset : Nat) : Place :=
  bisect lines.starts offset 0 lines.starts.size

/-- The line that holds a byte offset.  An offset past the end belongs to the last line. -/
def lineOf (lines : LineIndex) (offset : Nat) : Line :=
  match lines.place offset with
  | .found index => Line.ofIndex index
  | .absent index => Line.ofIndex (index - 1)

end LineIndex

end Source
end MiniLang
