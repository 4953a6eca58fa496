import BufferCheck.Diagnostic
import BufferCheck.Json.Shape

/-!
Diagnostics as the server sends them: with a category by name, line ends as the platform has them,
and places that nobody needs to be there.
-/
namespace BufferCheck.Server
open Json

/-- A line and an offset in it, both counted from one. -/
structure Spot where
  line : Nat
  offset : Nat
  deriving DecidableEq, Repr

/-- One diagnostic of a response. -/
structure Finding where
  start : Option Nat
  length : Option Nat
  message : String
  category : String
  code : Nat
  startSpot : Option Spot
  endSpot : Option Spot
  deriving DecidableEq, Repr

/-- The place that a value is: an object or a list of two. -/
def Spot.ofJson : Shape Spot
  | .object fields => do
    let line ← Shape.present? fields "line" Shape.usize
    let offset ← Shape.present? fields "offset" Shape.usize
    let line ← Shape.required "line" line
    let offset ← Shape.required "offset" offset
    return ⟨line, offset⟩
  | .array items => do
    let (line, items) ← Shape.next Shape.usize items
    let (offset, items) ← Shape.next Shape.usize items
    Shape.done items
    return ⟨line, offset⟩
  | v => .error (.wrongType (described v) (.record "Location"))

namespace Finding

/-- The diagnostic that a value is: an object or a list. -/
def ofJson : Shape Finding
  | .object fields => do
    let category ← Shape.present? fields "category" Shape.string
    let code ← Shape.present? fields "code" Shape.u32
    let endSpot ← Shape.present? fields "endLocation" (Shape.nullable Spot.ofJson)
    let length ← Shape.present? fields "length" (Shape.nullable Shape.usize)
    let message ← Shape.present? fields "message" Shape.string
    let start ← Shape.present? fields "start" (Shape.nullable Shape.usize)
    let startSpot ← Shape.present? fields "startLocation" (Shape.nullable Spot.ofJson)
    let message ← Shape.required "message" message
    let category ← Shape.required "category" category
    let code ← Shape.required "code" code
    return ⟨start.join, length.join, message, category, code, startSpot.join, endSpot.join⟩
  | .array items => do
    let (start, items) ← Shape.nextOr none (Shape.nullable Shape.usize) items
    let (length, items) ← Shape.nextOr none (Shape.nullable Shape.usize) items
    let (message, items) ← Shape.next Shape.string items
    let (category, items) ← Shape.next Shape.string items
    let (code, items) ← Shape.next Shape.u32 items
    let (startSpot, items) ← Shape.nextOr none (Shape.nullable Spot.ofJson) items
    let (endSpot, items) ← Shape.nextOr none (Shape.nullable Spot.ofJson) items
    Shape.done items
    return ⟨start, length, message, category, code, startSpot, endSpot⟩
  | v => .error (.wrongType (described v) (.record "DiagnosticWithLinePosition"))

/-- The diagnostics of a response; without a body there are none. -/
def ofBody? : Option Json → Except ShapeError (List Finding)
  | none => .ok []
  | some v => Shape.listOf ofJson v

/-- Each CR and LF in a row as LF alone. -/
def lineFeeds : List Char → List Char
  | '\r' :: '\n' :: cs => '\n' :: lineFeeds cs
  | c :: cs => c :: lineFeeds cs
  | [] => []

/-- The message with plain line ends. -/
def messageText (f : Finding) : String := .ofList (lineFeeds f.message.toList)

/-- The category; an unknown name is an error. -/
def severity (f : Finding) : Category := (Category.ofName? f.category).getD .error

/-- The diagnostic of a file, or of the project, where places mean nothing. -/
def toDiagnostic (file : Option SourceFile) (f : Finding) : Diagnostic :=
  { file
    start := file.bind fun _ => f.start
    length := file.bind fun _ => f.length
    code := f.code
    category := f.severity
    message := .text f.messageText }

end Finding
end BufferCheck.Server
