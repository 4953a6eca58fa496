import BufferCheck.Diagnostic
import BufferCheck.OptionSet

/-! The result of one build. -/
namespace BufferCheck

/-- What was built, and what was found in it. `Program.ofBuild` sorts the diagnostics. -/
structure Program where
  rootNames : List String
  options : OptionSet
  files : List SourceFile
  diagnostics : List Diagnostic

namespace Program

/-- The program of a build that found the given diagnostics, in any order. -/
def ofBuild (rootNames : List String) (options : OptionSet) (files : List SourceFile)
    (found : List Diagnostic) : Program :=
  ⟨rootNames, options, files, Diagnostic.sorted found⟩

/-- The first file of a name. -/
def file? (p : Program) (name : String) : Option SourceFile := p.files.find? (·.name = name)

end Program
end BufferCheck
