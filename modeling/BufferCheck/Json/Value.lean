import BufferCheck.Fields

/-!
JSON values. A number without fraction and exponent that fits a 64-bit word stays an integer; every
other number is a double, kept by its bits so that equality is decidable and no bit is lost.
-/
namespace BufferCheck

/-- An integer that a signed or an unsigned 64-bit word holds, from -2 ^ 63 up to 2 ^ 64. -/
structure Json.Integer where
  value : Int
  low : -9223372036854775808 ≤ value := by omega
  high : value < 18446744073709551616 := by omega
  deriving DecidableEq

/-- A JSON number. -/
inductive Json.Number where
  | integer (n : Json.Integer)
  | double (bits : UInt64)
  deriving DecidableEq

/-- A JSON value. The members of an object are in the order of their names. -/
inductive Json where
  | null
  | bool (b : Bool)
  | number (n : Json.Number)
  | string (s : String)
  | array (items : List Json)
  | object (fields : List (String × Json))

namespace Json

instance : Inhabited Json := ⟨.null⟩

/-- The integer as a number, if a 64-bit word holds it. -/
def Number.ofInt? (n : Int) : Option Number :=
  if h : -9223372036854775808 ≤ n ∧ n < 18446744073709551616 then some (.integer ⟨n, h.1, h.2⟩)
  else none

/-- A number below 2 ^ 64. -/
def ofNat (n : Nat) : Json :=
  if h : n < 18446744073709551616 then .number (.integer { value := n }) else .null

/-- An object with the given members. -/
def ofMembers (members : List (String × Json)) : Json := .object (Fields.ofList members)

/-- A list of texts. -/
def ofStrings (texts : List String) : Json := .array (texts.map .string)

/-- The member of an object. -/
def field? (name : String) : Json → Option Json
  | .object fields => Fields.find? name fields
  | _ => none

def asString? : Json → Option String
  | .string s => some s
  | _ => none

def asBool? : Json → Option Bool
  | .bool b => some b
  | _ => none

/-- The value of a number that is a natural. -/
def asNat? : Json → Option Nat
  | .number (.integer n) => if 0 ≤ n.value then some n.value.toNat else none
  | _ => none

def asArray? : Json → Option (List Json)
  | .array items => some items
  | _ => none

def asObject? : Json → Option (Fields Json)
  | .object fields => some fields
  | _ => none

end Json
end BufferCheck
