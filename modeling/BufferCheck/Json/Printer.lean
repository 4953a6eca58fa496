import BufferCheck.Decimal.Shortest
import BufferCheck.Json.Value

/-! The compact text of a JSON value: no white space, members in the order of their names. -/
namespace BufferCheck

namespace Decimal

/-- How the digits of a double are laid out: as a whole number or with a point while the point is
within sixteen digits before or five zeros after it, else with an exponent. -/
def Scientific.layout (s : Scientific) : List Char :=
  let ds := digits s.coefficient
  let length : Int := ds.length
  let point := length + s.exponent
  if 0 ≤ s.exponent ∧ point ≤ 16 then ds ++ List.replicate s.exponent.toNat '0' ++ ['.', '0']
  else if 0 < point ∧ point ≤ 16 then ds.take point.toNat ++ '.' :: ds.drop point.toNat
  else if -5 < point ∧ point ≤ 0 then '0' :: '.' :: List.replicate (-point).toNat '0' ++ ds
  else
    let mantissa := match ds with
      | [] => []
      | [d] => [d]
      | d :: more => d :: '.' :: more
    let sign := if 0 < point then ['+'] else []
    mantissa ++ 'e' :: sign ++ signed (point - 1)

/-- The text of a finite double. -/
def ofDouble (bits : UInt64) : List Char :=
  let magnitude := bits.toNat % Nat.pow 2 63
  let text := if magnitude = 0 then ['0', '.', '0'] else (shortest magnitude).layout
  if Nat.pow 2 63 ≤ bits.toNat then '-' :: text else text

end Decimal

namespace Json

def Number.chars : Number → List Char
  | .integer n => Decimal.signed n.value
  | .double bits => Decimal.ofDouble bits

/-- A hexadecimal digit in lower case. -/
def hexDigit (n : Nat) : Char := if n < 10 then Char.ofNat (48 + n) else Char.ofNat (87 + n)

/-- A character inside a string: quotes, backslashes and control characters are escaped. -/
def escapeChar (c : Char) : List Char :=
  match c with
  | '"' => ['\\', '"']
  | '\\' => ['\\', '\\']
  | '\x08' => ['\\', 'b']
  | '\x0c' => ['\\', 'f']
  | '\n' => ['\\', 'n']
  | '\r' => ['\\', 'r']
  | '\t' => ['\\', 't']
  | c =>
    if c.toNat < 0x20 then
      ['\\', 'u', '0', '0', hexDigit (c.toNat / 16), hexDigit (c.toNat % 16)]
    else [c]

/-- A text between quotes. -/
def quoted (s : String) : List Char := '"' :: s.toList.flatMap escapeChar ++ ['"']

mutual

/-- The characters of the compact text of a value. -/
def chars : Json → List Char
  | .null => ['n', 'u', 'l', 'l']
  | .bool true => ['t', 'r', 'u', 'e']
  | .bool false => ['f', 'a', 'l', 's', 'e']
  | .number n => n.chars
  | .string s => quoted s
  | .array [] => ['[', ']']
  | .array (v :: vs) => '[' :: (chars v ++ moreItems vs)
  | .object [] => ['{', '}']
  | .object ((name, v) :: rest) => '{' :: (quoted name ++ ':' :: (chars v ++ moreMembers rest))

/-- The items after the first, up to the closing bracket. -/
def moreItems : List Json → List Char
  | [] => [']']
  | v :: vs => ',' :: (chars v ++ moreItems vs)

/-- The members after the first, up to the closing brace. -/
def moreMembers : List (String × Json) → List Char
  | [] => ['}']
  | (name, v) :: rest => ',' :: (quoted name ++ ':' :: (chars v ++ moreMembers rest))

end

/-- The compact text of a value. -/
def text (v : Json) : String := .ofList v.chars

end Json
end BufferCheck
