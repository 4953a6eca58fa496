/-!
Path texts as the pieces between separators. Cutting and joining undo each other, so a path can be
looked at either way.
-/
namespace BufferCheck.Path

/-- The separator. -/
def separator : Char := '/'

/-- Cut a text at every separator; a text without one is a single piece. -/
def cut : List Char → List (List Char)
  | [] => [[]]
  | c :: cs =>
    if c = separator then [] :: cut cs
    else match cut cs with
      | [] => [[c]]
      | p :: ps => (c :: p) :: ps

/-- Put pieces together with a separator between each two. -/
def glue : List (List Char) → List Char
  | [] => []
  | [p] => p
  | p :: ps => p ++ separator :: glue ps

/-- The pieces of a path, empty ones included. -/
def pieces (path : String) : List String := (cut path.toList).map String.ofList

/-- The path of the given pieces. -/
def ofPieces (ps : List String) : String := "/".intercalate ps

/-- The path starts at the root. -/
def isRooted (path : String) : Bool := path.front? = some separator

/-- The path ends in a separator. -/
def endsInSeparator (path : String) : Bool := path.back? = some separator

/-- The path without the separators at its end. -/
def trimEnd (path : String) : String :=
  .ofList (path.toList.reverse.dropWhile (· = separator)).reverse

theorem cut_ne_nil (cs : List Char) : cut cs ≠ [] := by
  cases cs with
  | nil => simp [cut]
  | cons c cs => simp only [cut]; split <;> (try split) <;> simp

theorem glue_cons_cons (p q : List Char) (ps : List (List Char)) :
    glue (p :: q :: ps) = p ++ separator :: glue (q :: ps) := rfl

theorem glue_cut (cs : List Char) : glue (cut cs) = cs := by
  induction cs with
  | nil => rfl
  | cons c cs ih =>
    obtain ⟨p, ps, h⟩ := List.exists_cons_of_ne_nil (cut_ne_nil cs)
    rw [h] at ih
    simp only [cut, h]
    split
    · next hc => rw [glue_cons_cons, ih, hc]; rfl
    · cases ps with
      | nil => simpa [glue] using ih
      | cons q ps => simpa [glue_cons_cons] using ih

theorem toList_ofPieces (ps : List String) :
    (ofPieces ps).toList = glue (ps.map String.toList) := by
  unfold ofPieces
  induction ps with
  | nil => rfl
  | cons p ps ih => cases ps with
    | nil => simp [glue]
    | cons q ps => simpa [glue_cons_cons, String.intercalate_cons_cons, separator] using ih

theorem ofPieces_pieces (path : String) : ofPieces (pieces path) = path := by
  have h : (String.toList ∘ String.ofList) = id := by funext cs; simp
  apply String.toList_inj.mp
  simp [toList_ofPieces, pieces, h, glue_cut]

end BufferCheck.Path
