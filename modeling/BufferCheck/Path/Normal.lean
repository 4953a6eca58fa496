import BufferCheck.Path.Pieces

/-!
Normal paths. Files are told apart by their path text, so every spelling of a path is brought to
one form: no doubled separator, no `.` piece, and `..` only at the front of a relative path. All
of it is lexical; links are never followed.
-/
namespace BufferCheck.Path

/-- A path by what its normal form can show. -/
structure Spelling where
  rooted : Bool
  /-- The pieces that are neither empty nor `.`. -/
  names : List String
  /-- The path ends in a separator. -/
  closed : Bool

/-- A piece that leads nowhere. -/
def isIdle (piece : String) : Bool := piece = "" || piece = "."

def Spelling.ofPath (path : String) : Spelling :=
  ⟨isRooted path, (pieces path).filter (!isIdle ·), endsInSeparator path⟩

/-- Walk one piece further, the names walked so far being latest first. Above the root is the root;
above a relative start is another `..`. -/
def walk (rooted : Bool) (walked : List String) (name : String) : List String :=
  if name = ".." then
    match walked with
    | [] => if rooted then [] else [".."]
    | last :: rest => if last = ".." then (if rooted then walked else ".." :: walked) else rest
  else name :: walked

/-- The names that are left once every `..` has taken back the name before it. -/
def reduce (rooted : Bool) (names : List String) : List String :=
  (names.foldl (walk rooted) []).reverse

/-- The text of a spelling; nothing at all is `.` if it is relative. -/
def Spelling.text (s : Spelling) : String :=
  match s.rooted, s.names with
  | true, [] => "/"
  | false, [] => if s.closed then "./" else "."
  | rooted, names =>
    ofPieces ((if rooted then [""] else []) ++ names ++ (if s.closed then [""] else []))

/-- The normal form of a path. A separator at the end is kept. -/
def normalize (path : String) : String :=
  let s := Spelling.ofPath path
  { s with names := reduce s.rooted s.names }.text

/-- A path as seen from a directory, in normal form. -/
def combine (base path : String) : String :=
  if isRooted path || base = "" then normalize path
  else normalize (trimEnd base ++ "/" ++ path)

/-- A path as seen from a directory, in normal form and without a separator at its end. -/
def toAbsolute (base path : String) : String :=
  let combined := combine base path
  if 1 < combined.utf8ByteSize then trimEnd combined else combined

/-- The text before the last separator, empty if there is none. -/
def directoryOf (path : String) : String :=
  match (pieces path).dropLast with
  | [] => ""
  | [""] => "/"
  | ps => ofPieces ps

end BufferCheck.Path
