import BufferCheck.OptionSet
import BufferCheck.Path.Normal

/-!
Settings as declared and as resolved. Paths are declared as seen from a directory and libraries by
short names; resolved, paths are absolute and libraries are file names.
-/
namespace BufferCheck.Config

/-- What the value of an option means. -/
inductive OptionKind where
  | path
  | pathList
  | libraryList
  | plain
  deriving DecidableEq, Repr

def pathOptions : List String :=
  ["baseUrl", "rootDir", "outDir", "outFile", "out", "declarationDir", "tsBuildInfoFile",
    "generateCpuProfile", "generateTrace"]

def pathListOptions : List String := ["typeRoots", "rootDirs"]

def OptionKind.ofName (name : String) : OptionKind :=
  if name ∈ pathOptions then .path
  else if name ∈ pathListOptions then .pathList
  else if name = "lib" then .libraryList
  else .plain

/-- The file of a library. A name that ends in `.d.ts` is a file name already. -/
def libraryFile (name : String) : String :=
  let name := lowerAscii name
  if ".d.ts".toList.isSuffixOf name.toList then name
  else if name = "es6" then "lib.es2015.d.ts"
  else if name = "es7" then "lib.es2016.d.ts"
  else "lib." ++ name ++ ".d.ts"

/-- Change a text; leave any other value. -/
def mapString (f : String → String) : Json → Json
  | .string s => .string (f s)
  | v => v

/-- Change the texts of a list; leave any other value. -/
def mapStrings (f : String → String) : Json → Json
  | .array items => .array (items.map (mapString f))
  | v => v

/-- The value of an option declared in a directory. -/
def resolveSetting (directory name : String) (value : Json) : Json :=
  match OptionKind.ofName name with
  | .path => mapString (Path.toAbsolute directory) value
  | .pathList => mapStrings (Path.toAbsolute directory) value
  | .libraryList => mapStrings libraryFile value
  | .plain => value

/-- The options declared in a directory. -/
def resolveSettings (directory : String) (declared : Fields Json) : OptionSet :=
  .ofFields (declared.map fun p => (p.1, resolveSetting directory p.1 p.2))

end BufferCheck.Config
