import BufferCheck.Output
import BufferCheck.Server.EngineError
import BufferCheck.Server.Frame
import BufferCheck.Server.Message
import BufferCheck.Server.Request

/-!
A client of the server. Requests are numbered from one and written in order; what the server sends
waits in a queue. Waiting for a response takes items from the queue up to the first that decides:
the response with the wanted number, an item that is no message, or the end of the output. The items
before it are dropped for good. Where no item decides, the wait goes on as long as somebody is left
who could send one.
-/
namespace BufferCheck.Server

/-- What waits for the client. -/
inductive Inbound where
  | message (v : Json)
  /-- A stream failed, the server's output or its input. -/
  | ioError (text : String)
  /-- The server's output ended. -/
  | closed

namespace Inbound

/-- The item that tells how a stream ended. A reader that cannot make room for a body dies without
a word. -/
def ending? : Option StreamError → Option Inbound
  | none => some closed
  | some .oversizedBody => none
  | some e => some (ioError e.message)

/-- What the whole output of a server puts into the queue. -/
def ofStream (bytes : List UInt8) : List Inbound :=
  let found := Frame.readAll bytes
  found.1.map .message ++ (ending? found.2).toList

/-- What an item means for one who waits for the response to a request: its outcome, or nothing if
the item is passed over. -/
def decides? (seq : Nat) (command : String) : Inbound → Option (Except EngineError (Option Json))
  | ioError text => some (.error (.io text))
  | closed => some (.error .exited)
  | message v =>
    match Message.ofJson v with
    | .error e => some (.error (.protocol e.message))
    | .ok (.response r) =>
      if r.requestSeq = seq then
        if r.success then some (.ok r.body)
        else some (.error (.rejected command (r.message.getD "")))
      else none
    | .ok _ => none

/-- Take items from a queue up to the first that decides, if one does. -/
def await? (seq : Nat) (command : String) :
    List Inbound → Option (Except EngineError (Option Json) × List Inbound)
  | [] => none
  | item :: rest =>
    match item.decides? seq command with
    | some outcome => some (outcome, rest)
    | none => await? seq command rest

end Inbound

/-- A client between two operations, when all that can be read and written has been. -/
structure Client where
  nextSeq : Nat := 1
  inbound : List Inbound
  /-- The server's input. -/
  output : Output
  /-- The server's output has not ended: its reader may still send something. -/
  reading : Bool := false
  /-- No write has failed yet: the writer may still send something. -/
  writing : Bool := true
  /-- The requests that were handed to be written, in order. -/
  submitted : List Request := []

/-- An operation of a client. One that gives no result keeps what was done before. -/
abbrev ClientM := ExceptT Halt (StateM Client)

namespace Client

/-- A client of a server that sends the given bytes and takes the given number of bytes. -/
def ofServer (sent : List UInt8) (room : Option Nat) : Client :=
  { inbound := Inbound.ofStream sent, output := .fresh room }

/-- A client of a server that sends nothing and goes on running. -/
def ofSilentServer (room : Option Nat) : Client :=
  { inbound := [], output := .fresh room, reading := true }

/-- The number after a number; the last one is used again. -/
def succSeq (seq : Nat) : Nat := min (seq + 1) (UInt64.size - 1)

/-- What a client tells whose writes have failed. -/
def stoppedText : String := "tsserver writer thread stopped"

/-- Hand over a request. A write that fails is told through the queue. -/
def request (command : String) (arguments : Json) : ClientM Nat := fun c =>
  let r : Request := ⟨c.nextSeq, command, arguments⟩
  let c := { c with nextSeq := succSeq c.nextSeq }
  if c.writing then
    let written := c.output.write r.line
    (.ok r.seq,
      { c with
        output := written.1
        writing := written.2
        submitted := c.submitted ++ [r]
        inbound := if written.2 then c.inbound else c.inbound ++ [.ioError Output.refusal] })
  else (.error (.failed (.io stoppedText)), c)

/-- What comes of a wait that nothing in the queue decides. -/
def deserted (c : Client) : Halt := if c.reading || c.writing then .blocked else .failed .exited

/-- Wait for the response to a request. -/
def await (seq : Nat) (command : String) : ClientM (Option Json) := fun c =>
  match Inbound.await? seq command c.inbound with
  | some (outcome, rest) => (outcome.mapError .failed, { c with inbound := rest })
  | none => (.error c.deserted, { c with inbound := [] })

/-- Hand over a request and wait for its response. -/
def call (command : String) (arguments : Json) : ClientM (Option Json) := do
  let seq ← request command arguments
  await seq command

/-- Hand over a request whose response is not awaited. -/
def notify (command : String) (arguments : Json) : ClientM Unit := do
  let _ ← request command arguments

end Client
end BufferCheck.Server
