import BufferCheck.Decimal.Natural
import BufferCheck.Json.Value

/-!
Numbers as JSON texts spell them: the grammar, and the value of a numeral. An integer that a word
holds is exact. Otherwise the leading digits that fit an unsigned 64-bit word are multiplied or
divided once by a power of ten, in doubles; a result beyond the doubles is refused.
-/
namespace BufferCheck.Json

/-- The parts of a numeral. -/
structure Numeral where
  negative : Bool
  whole : List Char
  fraction : List Char
  /-- Sign (`true` is minus) and digits. -/
  exponent : Option (Bool × List Char)

namespace Numeral

/-- The digits at the front of a text, at least one. -/
def takeDigits? (cs : List Char) : Option (List Char × List Char) :=
  match cs.takeWhile Decimal.isDigit with
  | [] => none
  | ds => some (ds, cs.dropWhile Decimal.isDigit)

/-- The whole part has no leading zero. -/
def takeWhole? (cs : List Char) : Option (List Char × List Char) :=
  match takeDigits? cs with
  | some ('0' :: _ :: _, _) => none
  | r => r

/-- The fraction, empty where there is no point. -/
def takeFraction? : List Char → Option (List Char × List Char)
  | '.' :: cs => takeDigits? cs
  | cs => some ([], cs)

/-- The exponent, if there is one. -/
def takeExponent? : List Char → Option (Option (Bool × List Char) × List Char)
  | c :: cs =>
    if c = 'e' ∨ c = 'E' then
      match cs with
      | '+' :: r => (takeDigits? r).map fun (ds, r) => (some (false, ds), r)
      | '-' :: r => (takeDigits? r).map fun (ds, r) => (some (true, ds), r)
      | r => (takeDigits? r).map fun (ds, r) => (some (false, ds), r)
    else some (none, c :: cs)
  | [] => some (none, [])

/-- Read a numeral at the front of a text, and what follows it. -/
def read? (cs : List Char) : Option (Numeral × List Char) := do
  let (negative, cs) := match cs with
    | '-' :: r => (true, r)
    | r => (false, r)
  let (whole, cs) ← takeWhole? cs
  let (fraction, cs) ← takeFraction? cs
  let (exponent, cs) ← takeExponent? cs
  return (⟨negative, whole, fraction, exponent⟩, cs)

/-- Digits gathered into a 64-bit word, and how many digits of the whole part did not fit. -/
structure Significand where
  value : Nat
  exponent : Int
  /-- No further digit is taken. -/
  full : Bool

def Significand.pushWhole (s : Significand) (c : Char) : Significand :=
  let next := 10 * s.value + Decimal.digitValue c
  if s.full ∨ UInt64.size ≤ next then { s with exponent := s.exponent + 1, full := true }
  else { s with value := next }

def Significand.pushFraction (s : Significand) (c : Char) : Significand :=
  let next := 10 * s.value + Decimal.digitValue c
  if s.full ∨ UInt64.size ≤ next then { s with full := true }
  else { s with value := next, exponent := s.exponent - 1 }

/-- The significand of a numeral; the fraction is tried again after a whole part that did not fit.
-/
def significand (n : Numeral) : Significand :=
  let whole := n.whole.foldl Significand.pushWhole ⟨0, 0, false⟩
  n.fraction.foldl Significand.pushFraction { whole with full := false }

/-- `10 ^ e` as a double: the leading 64 bits of `5 ^ e`, shifted. Up to the greatest power among
the doubles they round as all the bits would. -/
def powerOfTen (e : Nat) : Float :=
  let five := Nat.pow 5 e
  let cut := five.log2 - 63
  (UInt64.ofNat (five >>> cut)).toFloat.scaleB (cut + e : Nat)

/-- `x * 10 ^ e` in doubles, in steps that a power of ten among the doubles allows; none beyond the
doubles. Three steps reach zero from any word. -/
def scale? : Nat → Float → Int → Option Float
  | steps, x, e =>
    if e.natAbs ≤ 308 then
      let power := powerOfTen e.natAbs
      if 0 ≤ e then
        let y := x * power
        if y.isInf then none else some y
      else some (x / power)
    else if x == 0 then some x
    else if 0 ≤ e then none
    else match steps with
      | 0 => some 0
      | steps + 1 => scale? steps (x / powerOfTen 308) (e + 308)

/-- The magnitude of a numeral as a double. An exponent beyond 2 ^ 31 leaves zero or overflows. -/
def magnitude? (n : Numeral) : Option Float :=
  let s := n.significand
  let x := (UInt64.ofNat s.value).toFloat
  match n.exponent with
  | none => scale? 3 x s.exponent
  | some (minus, ds) =>
    match Decimal.valueBelow? (Nat.pow 2 31) 0 ds with
    | none => if s.value ≠ 0 ∧ !minus then none else some 0
    | some e => scale? 3 x (if minus then s.exponent - e else s.exponent + e)

/-- A minus sign makes the zero of the doubles negative. -/
def double? (n : Numeral) : Option Number :=
  n.magnitude?.map fun x => .double (if n.negative then -x else x).toBits

/-- The value of a numeral. Minus zero is no integer. -/
def value? (n : Numeral) : Option Number :=
  match n.fraction, n.exponent with
  | [], none =>
    match Decimal.valueBelow? UInt64.size 0 n.whole with
    | none => n.double?
    | some v =>
      if n.negative ∧ v = 0 then n.double?
      else match Number.ofInt? (if n.negative then -(v : Int) else v) with
        | some r => some r
        | none => n.double?
  | _, _ => n.double?

end Numeral
end BufferCheck.Json
