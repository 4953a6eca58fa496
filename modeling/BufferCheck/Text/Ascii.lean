/-! Letter case, of ASCII letters alone. -/
namespace BufferCheck

/-- A letter in lower case. -/
def lowerChar (c : Char) : Char := if 'A' ≤ c ∧ c ≤ 'Z' then Char.ofNat (c.toNat + 32) else c

/-- A text with its ASCII letters in lower case. -/
def lowerAscii (s : String) : String := .ofList (s.toList.map lowerChar)

end BufferCheck
