import BufferCheck.Json.Reader

/-!
Configuration files. A file is an object with the members `extends` and `compilerOptions`, or a
list of the two. Other members are passed over; each of the two may be there once, and `null` is
as if absent.
-/
namespace BufferCheck

/-- What a configuration file declares. -/
structure Declaration where
  /-- The configurations it builds on, in order. -/
  bases : List String
  options : Fields Json

namespace Declaration
open Json.Reader

/-- The parts found so far. -/
structure Found where
  bases : Option (List String) := none
  options : Option (Fields Json) := none

/-- Parts that are missing declare nothing. -/
def Found.declaration (f : Found) : Declaration := ⟨f.bases.getD [], f.options.getD []⟩

/-- The specifiers of `extends`: one text or a list of texts. -/
def basesOf? : Json → Option (List String)
  | .null => some []
  | .string s => some [s]
  | .array items => items.mapM Json.asString?
  | _ => none

/-- The members of `compilerOptions`. -/
def optionsOf? : Json → Option (Fields Json)
  | .null => some []
  | .object fields => some fields
  | _ => none

/-- The value of a part, read in the steps that the whole file takes; the file itself takes one
level. -/
def part? (limit : Nat) (cs : List Char) : Option (Json × List Char) :=
  value? limit (maxLevels - 1) cs

/-- Read the value of a member. -/
def member? (limit : Nat) (found : Found) (name : String) (cs : List Char) :
    Option (Found × List Char) :=
  if name = "extends" then
    if found.bases.isSome then none
    else do
      let (v, cs) ← part? limit cs
      let bases ← basesOf? v
      return ({ found with bases := some bases }, cs)
  else if name = "compilerOptions" then
    if found.options.isSome then none
    else do
      let (v, cs) ← part? limit cs
      let options ← optionsOf? v
      return ({ found with options := some options }, cs)
  else (skip? limit true [] cs).map fun cs => (found, cs)

/-- Read members up to the closing brace. -/
def members? (limit fuel : Nat) (found : Found) (cs : List Char) : Option (Found × List Char) :=
  match fuel with
  | 0 => none
  | fuel + 1 =>
    match skipSpace cs with
    | '"' :: r =>
      match stringBody? r with
      | none => none
      | some (name, r) =>
        match skipSpace r with
        | ':' :: r =>
          match member? limit found name r with
          | none => none
          | some (found, r) =>
            match skipSpace r with
            | ',' :: r => members? limit fuel found r
            | '}' :: r => some (found, r)
            | _ => none
        | _ => none
    | _ => none

/-- Read the parts of a list up to the closing bracket. -/
def items? (limit : Nat) (cs : List Char) : Option (Found × List Char) := do
  let (v, cs) ← part? limit cs
  let bases ← basesOf? v
  match skipSpace cs with
  | ']' :: r => some ({ bases := some bases }, r)
  | ',' :: r =>
    let (v, cs) ← part? limit r
    let options ← optionsOf? v
    match skipSpace cs with
    | ']' :: r => some ({ bases := some bases, options := some options }, r)
    | _ => none
  | _ => none

/-- Read the value of a file. -/
def found? (cs : List Char) : Option (Found × List Char) :=
  match skipSpace cs with
  | '{' :: r =>
    match skipSpace r with
    | '}' :: r => some ({}, r)
    | r => members? (steps cs) (steps cs) {} r
  | '[' :: r =>
    match skipSpace r with
    | ']' :: r => some ({}, r)
    | r => items? (steps cs) r
  | _ => none

/-- The declaration that the text of a file holds. -/
def read? (text : String) : Option Declaration :=
  match found? text.toList with
  | some (found, r) => if atEnd r then some found.declaration else none
  | none => none

end Declaration
end BufferCheck
