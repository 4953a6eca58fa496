/-! Text measured in UTF-16 code units. -/
namespace BufferCheck.Utf16

/-- Characters above U+FFFF take two units. -/
def size (c : Char) : Nat := if c.toNat < 0x10000 then 1 else 2

/-- The number of code units of a text. -/
def length (s : String) : Nat := s.toList.foldl (fun n c => n + size c) 0

/-- A unit that opens a surrogate pair. -/
def isHigh (unit : Nat) : Bool := 0xD800 ≤ unit && unit < 0xDC00

/-- A unit that closes a surrogate pair. -/
def isLow (unit : Nat) : Bool := 0xDC00 ≤ unit && unit < 0xE000

/-- The character that a surrogate pair stands for. -/
def pair (high low : Nat) : Char :=
  Char.ofNat (0x10000 + 0x400 * (high - 0xD800) + (low - 0xDC00))

end BufferCheck.Utf16
