import BufferCheck.FileTree
import BufferCheck.Path.Ancestors

/-!
Finding configuration files: the nearest one above a directory, and the one that a specifier
names. A search is a list of candidates; its result is the first candidate that is a file.
-/
namespace BufferCheck.Config

/-- The name of a configuration file. -/
def fileName : String := "tsconfig.json"

/-- The first path of a list that leads to a file. -/
def firstFile? (tree : FileTree) (paths : List String) : Option String := paths.find? tree.isFile

/-- Where the configuration of a directory may be, nearest first. -/
def candidates (directory : String) : List String :=
  (Path.ancestors directory).map (Path.child · fileName)

/-- The nearest configuration in a directory or above it. -/
def find? (tree : FileTree) (directory : String) : Option String :=
  Path.searchUp (fun d => firstFile? tree [Path.child d fileName]) directory

/-- A path names a file, with `.json` understood unless that is its extension. -/
def spellings (path : String) : List String :=
  path :: if Path.hasJsonExtension path then [] else [path ++ ".json"]

/-- The specifier names a file as seen from the directory; any other names a package. -/
def isFileSpecifier (specifier : String) : Bool :=
  "./".isPrefixOf specifier || "../".isPrefixOf specifier || Path.isRooted specifier

/-- Where a package of a directory may be: a file, or a directory with a configuration. -/
def packageCandidates (specifier directory : String) : List String :=
  let package := Path.child (Path.child directory "node_modules") specifier
  spellings package ++ [Path.child package fileName]

/-- All paths that a specifier may name as seen from a directory, nearest first. -/
def baseCandidates (specifier directory : String) : List String :=
  if isFileSpecifier specifier then spellings (Path.toAbsolute directory specifier)
  else (Path.ancestors directory).flatMap (packageCandidates specifier)

/-- The configuration that a specifier names, as seen from a directory. -/
def findBase? (tree : FileTree) (specifier directory : String) : Option String :=
  if isFileSpecifier specifier then
    firstFile? tree (spellings (Path.toAbsolute directory specifier))
  else Path.searchUp (fun d => firstFile? tree (packageCandidates specifier d)) directory

theorem find?_eq (tree : FileTree) (directory : String) :
    find? tree directory = (candidates directory).find? tree.isFile := by
  simp only [find?, candidates, Path.searchUp_eq, firstFile?, List.find?_map, List.find?_cons,
    List.find?_nil]
  induction Path.ancestors directory with
  | nil => rfl
  | cons d ds ih =>
    rw [List.findSome?_cons, List.find?_cons, ih]
    cases h : tree.isFile (Path.child d fileName) <;> simp [h]

theorem findBase?_eq (tree : FileTree) (specifier directory : String) :
    findBase? tree specifier directory
      = (baseCandidates specifier directory).find? tree.isFile := by
  simp only [findBase?, baseCandidates, Path.searchUp_eq, firstFile?]
  split
  · rfl
  · rw [List.find?_flatMap]

theorem isFile_of_findBase? {tree : FileTree} {specifier directory path : String}
    (h : findBase? tree specifier directory = some path) : tree.isFile path = true := by
  rw [findBase?_eq] at h
  exact List.find?_some h

end BufferCheck.Config
