import BufferCheck.LineIndex
import BufferCheck.ScriptTarget

/-! Source files as the engine sees them. -/
namespace BufferCheck

/-- A text under the name it was asked for by, read for a language version. Its lines are found
once. -/
structure SourceFile where
  name : String
  text : String
  target : ScriptTarget
  lines : LineIndex := .ofText text
  lines_eq : lines = .ofText text := by rfl
  deriving DecidableEq

/-- The file of a text. -/
def SourceFile.ofText (name text : String) (target : ScriptTarget) : SourceFile :=
  { name, text, target }

end BufferCheck
