import BufferCheck.Decimal.Natural
import BufferCheck.Output
import BufferCheck.Program
import BufferCheck.Text.Utf8

/-!
Reports: the diagnostics of one file, one line each, as `name[line, character]: message`, with
places counted from one. They are written piece by piece to an output that may fill up on the way.
-/
namespace BufferCheck

/-- One line of output. -/
structure Report where
  fileName : String
  line : Nat
  character : Nat
  message : String
  deriving DecidableEq, Repr

/-- The report on a diagnostic of a file; one without a place stands at the start. -/
def Report.ofDiagnostic (file : SourceFile) (d : Diagnostic) : Report :=
  let place := file.lines.position (d.start.getD 0)
  ⟨file.name, place.line + 1, place.character + 1, d.message.firstLine⟩

/-- The reports on the file of a name, in the order of the program. -/
def Program.reports (p : Program) (target : String) : List Report :=
  p.diagnostics.filterMap fun d =>
    match d.file with
    | some file => if file.name = target then some (.ofDiagnostic file d) else none
    | none => none

/-- A number as it is written. -/
def numberText (n : Nat) : String := .ofList (Decimal.digits n)

namespace Report

/-- The pieces that a report is written in. -/
def pieces (r : Report) : List String :=
  [r.fileName, "[", numberText r.line, ", ", numberText r.character, "]: ", r.message, "\n"]

/-- The line of a report, without its line feed. -/
def text (r : Report) : String := "".intercalate r.pieces.dropLast

/-- All that is written for a list of reports. -/
def allText (rs : List Report) : String := "".intercalate (rs.flatMap pieces)

end Report

/-- Write a list of reports. -/
def Output.writeReports (out : Output) (rs : List Report) : Output × Bool :=
  out.writeAll ((rs.flatMap Report.pieces).map Utf8.encode)

end BufferCheck
