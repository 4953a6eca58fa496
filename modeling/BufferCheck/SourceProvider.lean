import BufferCheck.FileTree
import BufferCheck.Path.Ancestors
import BufferCheck.SourceFile

/-!
Where the engine's files come from: the disk, except for a buffer that stands in for one file. A
buffer is looked up by the exact normal path of its target.
-/
namespace BufferCheck

/-- The answer to a lookup: the file, if there is one, and what is told about a failure. -/
structure Lookup where
  file : Option SourceFile
  complaints : List String
  deriving DecidableEq

/-- Something that gives files by name, read for a language version. -/
abbrev SourceProvider := String → ScriptTarget → Lookup

/-- The files of a tree; relative names are below the base directory. -/
def diskProvider (tree : FileTree) (base : String) : SourceProvider := fun name target =>
  let path := Path.child base name
  match tree.readText path with
  | .ok text => ⟨some (.ofText name text target), []⟩
  | .error e => ⟨none, ["Cannot read file '" ++ path ++ "': " ++ e.message ++ "."]⟩

/-- A buffer that stands in for the file at a path. -/
structure BufferOverride where
  target : String
  buffer : String
  deriving DecidableEq, Repr

namespace BufferOverride

/-- The buffer for a path in any spelling. -/
def ofPath (path buffer : String) : BufferOverride := ⟨Path.normalize path, buffer⟩

/-- Serve the buffer under the name of its target; every other lookup goes on unchanged. -/
def wrap (o : BufferOverride) (provider : SourceProvider) : SourceProvider := fun name target =>
  if name = o.target then ⟨some (.ofText name o.buffer target), []⟩ else provider name target

/-- Put buffers over a provider, each outside those before it. -/
def wrapAll (overrides : List BufferOverride) (provider : SourceProvider) : SourceProvider :=
  overrides.foldl (fun p o => o.wrap p) provider

end BufferOverride
end BufferCheck
