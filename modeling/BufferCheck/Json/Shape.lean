import BufferCheck.Failure
import BufferCheck.Json.Printer
import BufferCheck.Text.Quoted

/-!
Reading values of a wanted shape out of JSON values, and what is told when the shape is wrong.
Records are objects, whose members are read in the order of their names before missing ones are
looked for, or lists of the members in a fixed order.
-/
namespace BufferCheck.Json

/-- What a reader wants. -/
inductive Wanted where
  | u64 | u32 | usize
  | boolean
  | string
  | sequence
  /-- The name of a kind of message. -/
  | variant
  /-- A record that names its own kind. -/
  | tagged (name : String)
  | record (name : String)
  deriving DecidableEq, Repr

def Wanted.text : Wanted → String
  | u64 => "u64"
  | u32 => "u32"
  | usize => "usize"
  | boolean => "a boolean"
  | string => "a string"
  | sequence => "a sequence"
  | variant => "variant identifier"
  | tagged name => "internally tagged enum " ++ name
  | record name => "struct " ++ name

/-- A value as messages name it: a simple one is shown, a compound one only by its kind. -/
def described : Json → String
  | .null => "null"
  | .bool b => "boolean `" ++ (if b then "true" else "false") ++ "`"
  | .number (.integer n) => "integer `" ++ .ofList (Decimal.signed n.value) ++ "`"
  | .number (.double bits) => "floating point `" ++ .ofList (Decimal.ofDouble bits) ++ "`"
  | .string s => "string " ++ quoteText s
  | .array _ => "sequence"
  | .object _ => "map"

/-- How a value fails to have a shape. -/
inductive ShapeError where
  | missing (field : String)
  | wrongType (found : String) (wanted : Wanted)
  | outOfRange (found : String) (wanted : Wanted)
  /-- A list in place of a record has too few items or too many. -/
  | wrongLength
  deriving DecidableEq, Repr

def ShapeError.message : ShapeError → String
  | missing field => "missing field `" ++ field ++ "`"
  | wrongType found wanted => "invalid type: " ++ found ++ ", expected " ++ wanted.text
  | outOfRange found wanted => "invalid value: " ++ found ++ ", expected " ++ wanted.text
  | wrongLength => malformedJson

/-- A reader of values. -/
abbrev Shape (α : Type) := Json → Except ShapeError α

namespace Shape
variable {α β : Type}

/-- A natural number below a limit. -/
def natural (limit : Nat) (wanted : Wanted) : Shape Nat
  | .number (.integer n) =>
    if 0 ≤ n.value ∧ n.value < limit then .ok n.value.toNat
    else .error (.outOfRange (described (.number (.integer n))) wanted)
  | v => .error (.wrongType (described v) wanted)

def u64 : Shape Nat := natural UInt64.size .u64

def usize : Shape Nat := natural UInt64.size .usize

def u32 : Shape Nat := natural UInt32.size .u32

def boolean : Shape Bool
  | .bool b => .ok b
  | v => .error (.wrongType (described v) .boolean)

def string : Shape String
  | .string s => .ok s
  | v => .error (.wrongType (described v) .string)

/-- Any value, or none where it is `null`. -/
def anything : Shape (Option Json)
  | .null => .ok none
  | v => .ok (some v)

/-- A value, or none where it is `null`. -/
def nullable (shape : Shape α) : Shape (Option α)
  | .null => .ok none
  | v => (shape v).map some

/-- A list of values of a shape. -/
def listOf (shape : Shape α) : Shape (List α)
  | .array items => items.mapM shape
  | v => .error (.wrongType (described v) .sequence)

/-- The member of an object, if it is there. -/
def present? (fields : Fields Json) (name : String) (shape : Shape α) :
    Except ShapeError (Option α) :=
  match fields.find? name with
  | none => .ok none
  | some v => (shape v).map some

/-- A member that has to be there. -/
def required (name : String) : Option α → Except ShapeError α
  | some a => .ok a
  | none => .error (.missing name)

/-- The next item of a list that has to have one, and the items after it. -/
def next (shape : Shape α) : List Json → Except ShapeError (α × List Json)
  | [] => .error .wrongLength
  | v :: rest => (shape v).map fun a => (a, rest)

/-- The next item of a list, or a default where the list ends. -/
def nextOr (default : α) (shape : Shape α) : List Json → Except ShapeError (α × List Json)
  | [] => .ok (default, [])
  | v :: rest => (shape v).map fun a => (a, rest)

/-- No items are left. -/
def done : List Json → Except ShapeError Unit
  | [] => .ok ()
  | _ :: _ => .error .wrongLength

end Shape
end BufferCheck.Json
