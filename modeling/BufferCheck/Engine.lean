import BufferCheck.Logged
import BufferCheck.Program
import BufferCheck.SourceProvider

/-! What builds programs. -/
namespace BufferCheck

/-- What is to be built. -/
structure BuildTask where
  rootNames : List String
  options : OptionSet

/-- Something that builds a program, asking a host for the files it needs. -/
abbrev Engine (ω ε : Type) := BuildTask → SourceProvider → Logged ω ε Program

end BufferCheck
