import BufferCheck.Failure
import BufferCheck.Json.Printer
import BufferCheck.Json.Reader
import BufferCheck.Text.Ascii
import BufferCheck.Text.Blank

/-!
Framed messages. A frame is a head of lines, a blank line, and a body of as many bytes as the head
announces: the JSON text of the message and a line feed. Only the header `Content-Length` counts,
in any letter case; blank lines before a head are passed over. The room for a body is made before
its first byte is read.
-/
namespace BufferCheck.Server

/-- Why no message could be read. -/
inductive StreamError where
  | missingLength
  | notUtf8
  | malformed
  | truncatedBody
  /-- A body is announced that is longer than a block of memory can be. -/
  | oversizedBody
  deriving DecidableEq, Repr

def StreamError.message : StreamError → String
  | missingLength => "Missing Content-Length header"
  | notUtf8 => "stream did not contain valid UTF-8"
  | malformed => malformedJson
  | truncatedBody => "failed to fill whole buffer"
  | oversizedBody => "capacity overflow"

namespace Frame

/-- The bytes that a block of memory can have: `2 ^ 63 - 1`. For a body within it there is taken to
be room. -/
def maxBody : Nat := 9223372036854775807

/-- The name of the header that counts, in lower case. -/
def lengthHeader : String := "content-length"

/-- The bytes of a message: head, blank line and body. -/
def ofJson (v : Json) : List UInt8 :=
  let body := Utf8.encode v.text ++ [10]
  Utf8.encode ("Content-Length: " ++ .ofList (Decimal.digits body.length) ++ "\r\n\r\n") ++ body

/-- The bytes up to the first line feed, with it, and the bytes after it. -/
def cutLine (bytes : List UInt8) : List UInt8 × List UInt8 :=
  match bytes.dropWhile (· ≠ 10) with
  | [] => (bytes, [])
  | newLine :: rest => (bytes.takeWhile (· ≠ 10) ++ [newLine], rest)

/-- A line without CR and LF at its end. -/
def trimLineEnd (cs : List Char) : List Char :=
  (cs.reverse.dropWhile fun c => c = '\r' || c = '\n').reverse

/-- A natural number below 2 ^ 64, with an optional plus sign. -/
def size? (cs : List Char) : Option Nat :=
  let ds := match cs with
    | '+' :: r => r
    | r => r
  if ds ≠ [] ∧ ds.all Decimal.isDigit then Decimal.valueBelow? UInt64.size 0 ds else none

/-- The length that a head line announces. A line of another name says nothing; a bad number takes
back what was announced before. -/
def announced? (line : List Char) : Option (Option Nat) :=
  match line.dropWhile (· ≠ ':') with
  | _ :: value =>
    let name := trimBlank (line.takeWhile (· ≠ ':'))
    if String.ofList (name.map lowerChar) = lengthHeader then some (size? (trimBlank value))
    else none
  | [] => none

theorem cutLine_length_lt {bytes : List UInt8} (h : bytes ≠ []) :
    (cutLine bytes).2.length < bytes.length := by
  have hs := (List.dropWhile_suffix (fun b : UInt8 => b ≠ 10) (l := bytes)).length_le
  simp only [cutLine]
  split
  · exact List.length_pos_iff.mpr h
  · next hd => rw [hd] at hs; exact hs

/-- Read the rest of a head, `started` telling whether it has a line yet. The end of the stream
gives nothing; else the length that was announced last and the bytes after the blank line. -/
def head (started : Bool) (length : Option Nat) (bytes : List UInt8) :
    Except StreamError (Option (Option Nat × List UInt8)) :=
  if h : bytes = [] then .ok none
  else
    have := cutLine_length_lt h
    match Utf8.decode? (cutLine bytes).1 with
    | none => .error .notUtf8
    | some line =>
      let line := trimLineEnd line.toList
      if line ≠ [] then head true ((announced? line).getD length) (cutLine bytes).2
      else if started then .ok (some (length, (cutLine bytes).2))
      else head false length (cutLine bytes).2
termination_by bytes.length

/-- Read one message, and the bytes after it. The end of the stream gives none. -/
def read (bytes : List UInt8) : Except StreamError (Option (Json × List UInt8)) :=
  match head false none bytes with
  | .error e => .error e
  | .ok none => .ok none
  | .ok (some (none, _)) => .error .missingLength
  | .ok (some (some length, rest)) =>
    if maxBody < length then .error .oversizedBody
    else if (rest.take length).length < length then .error .truncatedBody
    else match Json.ofBytes? (rest.take length) with
      | none => .error .malformed
      | some v => .ok (some (v, rest.drop length))

theorem head_length_lt {started : Bool} {length : Option Nat} {bytes : List UInt8}
    {r : Option Nat} {rest : List UInt8}
    (h : head started length bytes = .ok (some (r, rest))) : rest.length < bytes.length := by
  fun_induction head started length bytes with
  | case1 => simp at h
  | case2 => simp at h
  | case3 _ _ _ _ hlt _ _ _ _ ih => exact Nat.lt_trans (ih h) hlt
  | case4 _ _ _ hlt _ _ _ _ =>
    simp only [Except.ok.injEq, Option.some.injEq, Prod.mk.injEq] at h
    exact h.2 ▸ hlt
  | case5 _ _ _ _ hlt _ _ _ _ _ ih => exact Nat.lt_trans (ih h) hlt

theorem read_length_lt {bytes rest : List UInt8} {v : Json}
    (h : read bytes = .ok (some (v, rest))) : rest.length < bytes.length := by
  simp only [read] at h
  split at h
  · simp at h
  · simp at h
  · simp at h
  · next hh =>
    have := head_length_lt hh
    split at h
    · simp at h
    split at h
    · simp at h
    split at h
    · simp at h
    · simp only [Except.ok.injEq, Option.some.injEq, Prod.mk.injEq] at h
      rw [← h.2, List.length_drop]
      omega

/-- All messages of a stream, and the error that it ends in, if it does not end between two. -/
def readAll (bytes : List UInt8) : List Json × Option StreamError :=
  match h : read bytes with
  | .error e => ([], some e)
  | .ok none => ([], none)
  | .ok (some (v, rest)) =>
    have := read_length_lt h
    let more := readAll rest
    (v :: more.1, more.2)
termination_by bytes.length

end Frame
end BufferCheck.Server
