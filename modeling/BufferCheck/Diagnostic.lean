import BufferCheck.Message
import BufferCheck.SourceFile

/-!
Diagnostics, and the order they are kept in: by file, start, length, code and message, with what is
missing before what is there. Of diagnostics that the order does not tell apart, the first is kept.
-/
namespace BufferCheck

/-- How serious a diagnostic is. -/
inductive Category where
  | warning | error | suggestion | message
  deriving DecidableEq, Repr

namespace Category

def name : Category → String
  | warning => "warning"
  | error => "error"
  | suggestion => "suggestion"
  | message => "message"

def ofName? (s : String) : Option Category :=
  [warning, error, suggestion, message].find? (·.name = s)

end Category

/-- A problem, in a file or in the project as a whole. -/
structure Diagnostic where
  file : Option SourceFile
  /-- In UTF-16 code units, as is the length. -/
  start : Option Nat
  length : Option Nat
  code : Nat
  category : Category
  message : Message

namespace Diagnostic

def fileName (d : Diagnostic) : Option String := d.file.map (·.name)

/-- The order of diagnostics. -/
def order (a b : Diagnostic) : Ordering :=
  (compare a.fileName b.fileName).then <| (compare a.start b.start).then <|
    (compare a.length b.length).then <| (compare a.code b.code).then <|
      compare a.message.shown b.message.shown

/-- Drop each item that the order does not tell from the last one kept. -/
def dropRepeats : List Diagnostic → List Diagnostic
  | [] => []
  | [d] => [d]
  | d :: e :: rest =>
    if d.order e = .eq then dropRepeats (d :: rest) else d :: dropRepeats (e :: rest)
termination_by ds => ds.length

/-- The diagnostics in order, each once; the first one stands for those like it. -/
def sorted (ds : List Diagnostic) : List Diagnostic :=
  dropRepeats (ds.mergeSort fun a b => (a.order b).isLE)

end Diagnostic
end BufferCheck
