import BufferCheck.Path.Normal

/-!
Directories above a path, as spelled: the pieces of the path are dropped from its end one by one,
and `..` counts as a piece like any other. Pieces that lead nowhere are dropped with the piece
before them.
-/
namespace BufferCheck.Path

/-- Drop the idle pieces at the end of a path given by its pieces, last piece first. The first piece
of the path stays: it is the root or where a relative path starts. -/
def trimIdle : List String → List String
  | x :: y :: rest => if isIdle x then trimIdle (y :: rest) else x :: y :: rest
  | ps => ps

/-- The directories above a path, nearest first, all given by their pieces, last piece first. -/
def parents : List String → List (List String)
  | [] => []
  | [x] => if x = "" then [] else [[]]
  | x :: y :: rest =>
    if isIdle x then parents (y :: rest) else trimIdle (y :: rest) :: parents (y :: rest)

/-- The path of pieces, last piece first. A single empty piece is the root. -/
def ofReversed (ps : List String) : String := if ps = [""] then "/" else ofPieces ps.reverse

/-- A path, and the directories above it, nearest first. -/
def ancestors (path : String) : List String :=
  path :: (parents (pieces path).reverse).map ofReversed

/-- The first result of looking at a path and then at the directories above it, nearest first. -/
def searchUp {α : Type} (look : String → Option α) (path : String) : Option α :=
  match look path with
  | some a => some a
  | none => (parents (pieces path).reverse).findSome? fun ps => look (ofReversed ps)

/-- The directory that holds a path, empty if the path names none. -/
def parent (path : String) : String :=
  match parents (pieces path).reverse with
  | [] => ""
  | ps :: _ => ofReversed ps

/-- A path below a directory. A rooted path stands for itself. -/
def child (directory path : String) : String :=
  if isRooted path then path
  else if directory = "" || endsInSeparator directory then directory ++ path
  else directory ++ "/" ++ path

/-- The spelling of a path without the pieces that lead nowhere, but for one in front: it tells the
root, and a `.` in front of a relative path counts. -/
def plain (path : String) : String :=
  match pieces path with
  | [] => ""
  | first :: rest => ofPieces (first :: rest.filter (!isIdle ·))

/-- The last name of a path, if it is the name of an entry. -/
def fileName? (path : String) : Option String :=
  match trimIdle (pieces path).reverse with
  | [] => none
  | last :: _ => if isIdle last || last = ".." then none else some last

/-- The path names a file whose extension is `json`; a name that starts with its only dot has none.
-/
def hasJsonExtension (path : String) : Bool :=
  match fileName? path with
  | none => false
  | some name => ".json".toList.isSuffixOf name.toList && name ≠ ".json"

theorem searchUp_eq {α : Type} (look : String → Option α) (path : String) :
    searchUp look path = (ancestors path).findSome? look := by
  simp only [searchUp, ancestors, List.findSome?_cons, List.findSome?_map]
  rfl

theorem utf8ByteSize_ofPieces (p : String) (ps : List String) :
    (ofPieces (p :: ps)).utf8ByteSize
      = p.utf8ByteSize + ps.foldr (fun q size => 1 + q.utf8ByteSize + size) 0 := by
  induction ps generalizing p with
  | nil => simp [ofPieces]
  | cons q ps ih =>
    have h : ofPieces (p :: q :: ps) = p ++ "/" ++ ofPieces (q :: ps) :=
      String.intercalate_cons_cons
    have hs : "/".utf8ByteSize = 1 := rfl
    rw [h, String.utf8ByteSize_append, String.utf8ByteSize_append, ih q, hs]
    simp only [List.foldr_cons]
    omega

theorem foldr_filter_le (f : String → Nat) (keep : String → Bool) (ps : List String) :
    (ps.filter keep).foldr (fun p size => f p + size) 0
      ≤ ps.foldr (fun p size => f p + size) 0 := by
  induction ps with
  | nil => simp
  | cons p ps ih =>
    simp only [List.filter_cons]
    split
    · simpa using ih
    · simp only [List.foldr_cons]; omega

theorem plain_utf8ByteSize_le (path : String) : (plain path).utf8ByteSize ≤ path.utf8ByteSize := by
  unfold plain
  split
  · simp
  · next first rest h =>
    have hp := ofPieces_pieces path
    rw [h] at hp
    have hs := foldr_filter_le (fun q => 1 + q.utf8ByteSize) (!isIdle ·) rest
    rw [← hp, utf8ByteSize_ofPieces, utf8ByteSize_ofPieces]
    omega

end BufferCheck.Path
