import BufferCheck.Json.Shape

/-!
Messages of the server. A message is an object whose member `type` says what it is, or a list that
starts with the type; other members of an object are passed over.
-/
namespace BufferCheck.Server
open Json

/-- The answer to a request. -/
structure Response where
  requestSeq : Nat
  success : Bool
  command : String := ""
  message : Option String := none
  body : Option Json := none

/-- What the server sends. -/
inductive Message where
  | response (r : Response)
  | event (name : String) (body : Option Json)
  /-- A message of any other type. -/
  | other

namespace Message

/-- The member `type` of an object or the first item of a list, and what is beside it. -/
def kind : Json → Except ShapeError String
  | .object fields =>
    match Fields.find? "type" fields with
    | none => .error (.missing "type")
    | some (.string s) => .ok s
    | some v => .error (.wrongType (described v) .variant)
  | .array [] => .error (.missing "type")
  | .array (.string s :: _) => .ok s
  | .array (v :: _) => .error (.wrongType (described v) .variant)
  | v => .error (.wrongType (described v) (.tagged "ServerMessage"))

/-- The response that the members of an object make. -/
def responseOfFields (fields : Fields Json) : Except ShapeError Response := do
  let body ← Shape.present? fields "body" Shape.anything
  let command ← Shape.present? fields "command" Shape.string
  let message ← Shape.present? fields "message" (Shape.nullable Shape.string)
  let seq ← Shape.present? fields "request_seq" Shape.u64
  let success ← Shape.present? fields "success" Shape.boolean
  let seq ← Shape.required "request_seq" seq
  let success ← Shape.required "success" success
  return ⟨seq, success, command.getD "", message.join, body.join⟩

/-- The response that the items of a list make, after its type. -/
def responseOfItems (items : List Json) : Except ShapeError Response := do
  let (seq, items) ← Shape.next Shape.u64 items
  let (success, items) ← Shape.next Shape.boolean items
  let (command, items) ← Shape.nextOr "" Shape.string items
  let (message, items) ← Shape.nextOr none (Shape.nullable Shape.string) items
  let (body, items) ← Shape.nextOr none Shape.anything items
  Shape.done items
  return ⟨seq, success, command, message, body⟩

/-- The event that the members of an object make. -/
def eventOfFields (fields : Fields Json) : Except ShapeError Message := do
  let body ← Shape.present? fields "body" Shape.anything
  let name ← Shape.present? fields "event" Shape.string
  let name ← Shape.required "event" name
  return .event name body.join

/-- The event that the items of a list make, after its type. -/
def eventOfItems (items : List Json) : Except ShapeError Message := do
  let (name, items) ← Shape.next Shape.string items
  let (body, items) ← Shape.nextOr none Shape.anything items
  Shape.done items
  return .event name body

/-- The message that a value is. A list of another type holds nothing but its type. -/
def ofJson (v : Json) : Except ShapeError Message := do
  let kind ← kind v
  match v with
  | .object fields =>
    if kind = "response" then return .response (← responseOfFields fields)
    else if kind = "event" then eventOfFields fields
    else return .other
  | .array (_ :: items) =>
    if kind = "response" then return .response (← responseOfItems items)
    else if kind = "event" then eventOfItems items
    else
      Shape.done items
      return .other
  | _ => return .other

end Message
end BufferCheck.Server
