/-!
Values by name, kept in the order of the names. Names order by their characters, which is the order
of their bytes.
-/
namespace BufferCheck

/-- Pairs of a name and a value; `Fields.insert` keeps them in order. -/
abbrev Fields (α : Type u) := List (String × α)

namespace Fields
variable {α : Type u}

/-- The value under a name. -/
def find? (name : String) : Fields α → Option α
  | [] => none
  | (k, v) :: rest => if k = name then some v else find? name rest

/-- Put a value under a name, in place of the one that was there. -/
def insert (name : String) (value : α) : Fields α → Fields α
  | [] => [(name, value)]
  | (k, v) :: rest =>
    if k = name then (name, value) :: rest
    else if name < k then (name, value) :: (k, v) :: rest
    else (k, v) :: insert name value rest

/-- Put every pair of a list, the last under a name wins. -/
def extend (fields : Fields α) (pairs : List (String × α)) : Fields α :=
  pairs.foldl (fun acc p => acc.insert p.1 p.2) fields

/-- The fields with the pairs of a list. -/
def ofList (pairs : List (String × α)) : Fields α := extend [] pairs

theorem find?_insert_self (name : String) (value : α) (fields : Fields α) :
    (fields.insert name value).find? name = some value := by
  induction fields with
  | nil => simp [insert, find?]
  | cons p rest ih =>
    obtain ⟨k, v⟩ := p
    simp only [insert]
    split
    · simp [find?]
    · split
      · simp [find?]
      · simp_all [find?]

theorem find?_insert_of_ne {name other : String} (value : α) (fields : Fields α)
    (h : other ≠ name) : (fields.insert name value).find? other = fields.find? other := by
  induction fields with
  | nil => simp [insert, find?, h.symm]
  | cons p rest ih =>
    obtain ⟨k, v⟩ := p
    simp only [insert]
    split
    · subst k
      simp [find?, h.symm]
    · split
      · simp [find?, h.symm]
      · simp [find?, ih]

end Fields
end BufferCheck
