import BufferCheck.Path.Normal
import BufferCheck.Text.Utf8

/-!
Trees of files, as far as a check looks at them: directories, files and symbolic links, and how a
path finds its way through them. A path is walked piece by piece from the root; `..` leads to the
directory above the one reached, and a link is replaced by its target.
-/
namespace BufferCheck

/-- What may be at a place in a tree. A directory holds entries by name; of two under one name the
first counts. -/
inductive Entry where
  | directory (inside : List (String × Entry))
  | file (bytes : List UInt8)
  | link (target : String)

/-- A tree by what is in its root, with the directory that relative paths are seen from. -/
structure FileTree where
  inside : List (String × Entry) := []
  start : String := "/"

/-- A way into a tree: the names passed, innermost first, each with what is under it. The empty way
stays at the root. -/
abbrev Trail := List (String × Entry)

/-- Why a path gives no text. -/
inductive FileError where
  | notFound
  | notDirectory
  | isDirectory
  | tooManyLinks
  | nameTooLong
  | nulByte
  | notUtf8
  deriving DecidableEq, Repr

namespace FileError

def message : FileError → String
  | notFound => "No such file or directory (os error 2)"
  | notDirectory => "Not a directory (os error 20)"
  | isDirectory => "Is a directory (os error 21)"
  | tooManyLinks => "Too many levels of symbolic links (os error 40)"
  | nameTooLong => "File name too long (os error 36)"
  | nulByte => "file name contained an unexpected NUL byte"
  | notUtf8 => "stream did not contain valid UTF-8"

end FileError

namespace FileTree

/-- A path has fewer bytes than this. -/
def pathLimit : Nat := 4096

/-- A name has at most this many bytes. -/
def nameLimit : Nat := 255

/-- A path goes through at most this many links. -/
def linkLimit : Nat := 40

/-- What a way leads to. -/
def reached (tree : FileTree) : Trail → Entry
  | [] => .directory tree.inside
  | (_, entry) :: _ => entry

/-- The entry that names lead to from another one. -/
def entryFrom? : Entry → List String → Option Entry
  | entry, [] => some entry
  | .directory inside, name :: rest => (inside.lookup name).bind (entryFrom? · rest)
  | _, _ :: _ => none

/-- The entry that names lead to from the root. -/
def entry? (tree : FileTree) (names : List String) : Option Entry :=
  entryFrom? (.directory tree.inside) names

/-- Put an entry where names lead from a directory, in place of what was there. Directories on the
way are made; a directory itself takes nothing's place. -/
def putIn (inside : List (String × Entry)) (new : Entry) : List String → List (String × Entry)
  | [] => inside
  | name :: rest =>
    let entry := match rest, new, inside.lookup name with
      | [], .directory _, some old => old
      | [], _, _ => new
      | _, _, some (.directory more) => .directory (putIn more new rest)
      | _, _, some old => old
      | _, _, none => .directory (putIn [] new rest)
    (name, entry) :: inside.filter (·.1 ≠ name)

/-- Put an entry where names lead from the root. -/
def put (tree : FileTree) (names : List String) (entry : Entry) : FileTree :=
  { tree with inside := putIn tree.inside entry names }

/-- Put an entry where the pieces of a path lead from the names passed, innermost first. The
directories on the way are made, also those that `..` leaves. -/
def plant (tree : FileTree) (passed : List String) (path : List String) (entry : Entry) :
    FileTree :=
  match path with
  | [] => tree.put passed.reverse entry
  | name :: rest =>
    if Path.isIdle name then tree.plant passed rest entry
    else if name = ".." then
      (tree.put passed.reverse (.directory [])).plant passed.tail rest entry
    else tree.plant (name :: passed) rest entry

/-- Walk the pieces of a path, on from a way; `follow` goes on where a link has been replaced. Only
a directory can be walked through, so a separator after the name of a file is an error. -/
def walkWith (tree : FileTree) (follow : Trail → List String → Except FileError Trail)
    (trail : Trail) : List String → Except FileError Trail
  | [] => .ok trail
  | name :: rest =>
    match tree.reached trail with
    | .directory inside =>
      if Path.isIdle name then walkWith tree follow trail rest
      else if name = ".." then walkWith tree follow trail.tail rest
      else if nameLimit < name.utf8ByteSize then .error .nameTooLong
      else match inside.lookup name with
        | none => .error .notFound
        | some (.link target) =>
          follow (if Path.isRooted target then [] else trail) (Path.pieces target ++ rest)
        | some entry => walkWith tree follow ((name, entry) :: trail) rest
    | _ => .error .notDirectory

/-- Walk the pieces of a path, on from a way, through at most `links` links. -/
def walk (tree : FileTree) (links : Nat) : Trail → List String → Except FileError Trail :=
  match links with
  | 0 => tree.walkWith fun _ _ => .error .tooManyLinks
  | links + 1 => tree.walkWith (tree.walk links)

/-- The way that a path takes. An empty path leads nowhere. -/
def locate (tree : FileTree) (path : String) : Except FileError Trail :=
  if path.contains '\x00' then .error .nulByte
  else if pathLimit ≤ path.utf8ByteSize then .error .nameTooLong
  else if path = "" then .error .notFound
  else if Path.isRooted path then tree.walk linkLimit [] (Path.pieces path)
  else tree.walk linkLimit [] (Path.pieces tree.start ++ Path.pieces path)

/-- The bytes of the file that a path leads to. -/
def readBytes (tree : FileTree) (path : String) : Except FileError (List UInt8) := do
  match tree.reached (← tree.locate path) with
  | .file bytes => return bytes
  | .directory _ => throw .isDirectory
  | .link _ => throw .notFound

/-- The text of the file that a path leads to. -/
def readText (tree : FileTree) (path : String) : Except FileError String := do
  match Utf8.decode? (← tree.readBytes path) with
  | some text => return text
  | none => throw .notUtf8

/-- A path leads to a file. -/
def isFile (tree : FileTree) (path : String) : Bool :=
  match tree.readBytes path with
  | .ok _ => true
  | .error _ => false

/-- The path of the same place without links, `.` and `..`. -/
def realPath (tree : FileTree) (path : String) : Except FileError String := do
  match ← tree.locate path with
  | [] => return "/"
  | trail => return Path.ofPieces ("" :: (trail.map (·.1)).reverse)

/-- No entry is a link. -/
def LinkFree (tree : FileTree) : Prop :=
  ∀ names target, tree.entry? names ≠ some (.link target)

theorem size_lt_of_readBytes {tree : FileTree} {path : String} {bytes : List UInt8}
    (h : tree.readBytes path = .ok bytes) : path.utf8ByteSize < pathLimit := by
  rcases Nat.lt_or_ge path.utf8ByteSize pathLimit with hs | hs
  · exact hs
  · exfalso
    simp only [readBytes, locate] at h
    split at h <;> simp_all [bind, Except.bind]

/-- Only finitely many paths lead to files: each is short. -/
theorem size_lt_of_isFile {tree : FileTree} {path : String} (h : tree.isFile path = true) :
    path.utf8ByteSize < pathLimit := by
  simp only [isFile] at h
  split at h
  · next hr => exact size_lt_of_readBytes hr
  · simp at h

end FileTree
end BufferCheck
