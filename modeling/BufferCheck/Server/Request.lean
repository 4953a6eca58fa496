import BufferCheck.Json.Printer
import BufferCheck.Text.Utf8

/-! Requests to the server, one JSON text a line. -/
namespace BufferCheck.Server

/-- A request with its number. -/
structure Request where
  seq : Nat
  command : String
  arguments : Json

namespace Request

def toJson (r : Request) : Json :=
  .ofMembers [("seq", .ofNat r.seq), ("type", .string "request"), ("command", .string r.command),
    ("arguments", r.arguments)]

/-- The bytes of a request: its text and a line feed. -/
def line (r : Request) : List UInt8 := Utf8.encode r.toJson.text ++ [10]

end Request
end BufferCheck.Server
