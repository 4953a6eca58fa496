import BufferCheck.Text.Utf16

/-!
Lines of a text, measured in UTF-16 code units. A line ends after LF, after CR, after the two of
them taken as one, and after U+2028 and U+2029. The starts of all lines are found in one pass; the
line of a position is found by halving.
-/
namespace BufferCheck

/-- A place in a text, counted from zero. -/
structure LinePosition where
  line : Nat
  character : Nat
  deriving DecidableEq, Repr

/-- Where the lines of a text start, and where it ends. -/
structure LineIndex where
  starts : Array Nat
  length : Nat
  deriving DecidableEq

namespace LineIndex

/-- The character ends a line by itself. -/
def isBreak (c : Char) : Bool := c = '\n' || c = '\r' || c = '\u2028' || c = '\u2029'

/-- Go on through a text from an offset, with the starts found so far. -/
def scan (starts : Array Nat) (offset : Nat) : List Char → LineIndex
  | [] => ⟨starts, offset⟩
  | '\r' :: '\n' :: cs => scan (starts.push (offset + 2)) (offset + 2) cs
  | c :: cs =>
    let next := offset + Utf16.size c
    scan (if isBreak c then starts.push next else starts) next cs

/-- The lines of a text. The first starts at zero. -/
def ofText (text : String) : LineIndex := scan #[0] 0 text.toList

def lineCount (index : LineIndex) : Nat := index.starts.size

/-- Where a line starts, if there is such a line. -/
def lineStart? (index : LineIndex) (line : Nat) : Option Nat := index.starts[line]?

/-- The last line from `low` on and below `high` that starts at or before a position; `low` if none
does. -/
def lastStart (starts : Array Nat) (position low high : Nat) : Nat :=
  if low + 1 < high then
    let middle := (low + high) / 2
    if (starts[middle]?).getD 0 ≤ position then lastStart starts position middle high
    else lastStart starts position low middle
  else low
termination_by high - low
decreasing_by all_goals omega

/-- The place of an offset; one past the end counts as the end. -/
def position (index : LineIndex) (offset : Nat) : LinePosition :=
  let offset := min offset index.length
  let line := lastStart index.starts offset 0 index.starts.size
  ⟨line, offset - (index.starts[line]?).getD 0⟩

end LineIndex
end BufferCheck
