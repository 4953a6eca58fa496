/-!
UTF-8 text: the bytes of a text, strict decoding, and decoding that puts U+FFFD where bytes are bad.
The second reads one byte at a time, so that what has been decoded never changes.
-/
namespace BufferCheck.Utf8

/-- The bytes of a text. -/
def encode (s : String) : List UInt8 := s.toUTF8.data.toList

/-- The text that well-formed bytes encode. -/
def decode? (bytes : List UInt8) : Option String := String.fromUTF8? bytes.toByteArray

/-- A character of several bytes under way: the bytes still owed, the range that the next one must
lie in, and the bits read so far. -/
structure Pending where
  owed : Nat
  low : UInt8
  high : UInt8
  bits : Nat

/-- What a byte does where a character may start. -/
inductive Lead where
  | single (c : Char)
  | opens (p : Pending)
  | bad

/-- The ranges rule out overlong forms, surrogates and code points above U+10FFFF. -/
def lead (b : UInt8) : Lead :=
  if b < 0x80 then .single (Char.ofNat b.toNat)
  else if b < 0xC2 then .bad
  else if b < 0xE0 then .opens ⟨1, 0x80, 0xBF, b.toNat - 0xC0⟩
  else if b = 0xE0 then .opens ⟨2, 0xA0, 0xBF, 0⟩
  else if b = 0xED then .opens ⟨2, 0x80, 0x9F, 0xD⟩
  else if b < 0xF0 then .opens ⟨2, 0x80, 0xBF, b.toNat - 0xE0⟩
  else if b = 0xF0 then .opens ⟨3, 0x90, 0xBF, 0⟩
  else if b < 0xF4 then .opens ⟨3, 0x80, 0xBF, b.toNat - 0xF0⟩
  else if b = 0xF4 then .opens ⟨3, 0x80, 0x8F, 4⟩
  else .bad

/-- What stands for a run of bad bytes. -/
def replacement : Char := '\uFFFD'

/-- The decoder between two bytes: the text so far, latest character first, and the character under
way. -/
structure Decoder where
  done : List Char
  pending : Option Pending

/-- The decoder before the first byte. -/
def Decoder.start : Decoder := ⟨[], none⟩

/-- Take a byte where a character may start. -/
def Decoder.open (done : List Char) (b : UInt8) : Decoder :=
  match lead b with
  | .single c => ⟨c :: done, none⟩
  | .opens p => ⟨done, some p⟩
  | .bad => ⟨replacement :: done, none⟩

/-- A byte that does not continue the character under way closes it as bad and is looked at again.
-/
def Decoder.push (d : Decoder) (b : UInt8) : Decoder :=
  match d.pending with
  | none => .open d.done b
  | some p =>
    if p.low ≤ b ∧ b ≤ p.high then
      let bits := 64 * p.bits + (b.toNat - 0x80)
      if p.owed ≤ 1 then ⟨Char.ofNat bits :: d.done, none⟩
      else ⟨d.done, some ⟨p.owed - 1, 0x80, 0xBF, bits⟩⟩
    else .open (replacement :: d.done) b

/-- The text at the end of the bytes; a character cut short is bad. -/
def Decoder.finish (d : Decoder) : List Char :=
  match d.pending with
  | none => d.done.reverse
  | some _ => (replacement :: d.done).reverse

/-- Decode any bytes, with one U+FFFD for each longest run that starts a character and does not
finish it, and for each byte that starts none. -/
def decodeLossy (bytes : List UInt8) : String :=
  .ofList (bytes.foldl Decoder.push .start).finish

end BufferCheck.Utf8
