import BufferCheck.Text.Utf8

/-! The buffer under check, read from a stream piece by piece. -/
namespace BufferCheck

/-- What one read of a stream gives. -/
inductive ReadResult where
  /-- No bytes at all are the end of the stream. -/
  | chunk (bytes : List UInt8)
  /-- The read was interrupted and is tried again. -/
  | interrupted
  | failed (text : String)

/-- A failure to read the buffer. -/
structure ReadError where
  text : String
  deriving DecidableEq, Repr

/-- The bytes up to the end of the stream. -/
def readBytes : List ReadResult → Except ReadError (List UInt8)
  | [] => .ok []
  | .chunk [] :: _ => .ok []
  | .chunk bytes :: rest => (readBytes rest).map (bytes ++ ·)
  | .interrupted :: rest => readBytes rest
  | .failed text :: _ => .error ⟨text⟩

/-- The text of a stream. Bytes that are no text are replaced. -/
def readBuffer (reads : List ReadResult) : Except ReadError String :=
  (readBytes reads).map Utf8.decodeLossy

end BufferCheck
