import BufferCheck.Decimal.Natural

/-!
The shortest decimal that reads back as a given double. A double is `m * 2 ^ q`; the reals that
round to it form an interval around it, and the first of the grids of 1, 2, 3, … significant
digits that has a point in the interval gives the digits. All of it is exact arithmetic on
naturals.
-/
namespace BufferCheck.Decimal

/-- A decimal number `coefficient * 10 ^ exponent`. -/
structure Scientific where
  coefficient : Nat
  exponent : Int
  deriving DecidableEq, Repr

/-- The positive number `num / den`. -/
structure Ratio where
  num : Nat
  den : Nat

/-- The number times a power of a base. -/
def Ratio.scale (r : Ratio) (base : Nat) (e : Int) : Ratio :=
  if 0 ≤ e then ⟨r.num * Nat.pow base e.natAbs, r.den⟩ else ⟨r.num, r.den * Nat.pow base e.natAbs⟩

def Ratio.le (r s : Ratio) : Bool := r.num * s.den ≤ s.num * r.den

def Ratio.lt (r s : Ratio) : Bool := r.num * s.den < s.num * r.den

/-- A finite positive double, as the reals that round to it. -/
structure RoundingInterval where
  low : Ratio
  mid : Ratio
  high : Ratio
  /-- The ends round to the double as well. -/
  closed : Bool

/-- The interval of the double `m * 2 ^ q`; below a power of two the next double is half as far. -/
def RoundingInterval.ofParts (m : Nat) (q : Int) : RoundingInterval :=
  let quarter (n : Nat) : Ratio := Ratio.scale ⟨n, 1⟩ 2 (q - 2)
  { low := quarter (if m = Nat.pow 2 52 ∧ -1074 < q then 4 * m - 1 else 4 * m - 2)
    mid := quarter (4 * m)
    high := quarter (4 * m + 2)
    closed := m % 2 = 0 }

def RoundingInterval.has (i : RoundingInterval) (r : Ratio) : Bool :=
  if i.closed then i.low.le r && r.le i.high else i.low.lt r && r.lt i.high

/-- The power of ten is at most the number and the next one is above it. -/
def Ratio.hasMagnitude (r : Ratio) (e : Int) : Bool :=
  (Ratio.scale ⟨1, 1⟩ 10 e).le r && r.lt (Ratio.scale ⟨1, 1⟩ 10 (e + 1))

/-- The greatest power of ten that is at most the number. The binary logarithms tell it up to one;
failing that, it is looked for among all that doubles need. -/
def Ratio.magnitude (r : Ratio) : Int :=
  let bits : Int := (r.num.log2 : Int) - r.den.log2
  let near := (bits - 1) * 30103 / 100000
  if r.hasMagnitude near then near
  else if r.hasMagnitude (near + 1) then near + 1
  else (((List.range 634).map fun n : Nat => (309 : Int) - (n : Int)).find? r.hasMagnitude).getD
    (-324)

/-- The point of the grid `10 ^ exponent` next to the number that lies in the interval; of two, the
nearer, and the even one of two equally near. -/
def RoundingInterval.gridPoint? (i : RoundingInterval) (exponent : Int) : Option Scientific :=
  let point (n : Nat) : Ratio := Ratio.scale ⟨n, 1⟩ 10 exponent
  let scaled := i.mid.scale 10 (-exponent)
  let below := scaled.num / scaled.den
  let twice := 2 * (scaled.num % scaled.den)
  match i.has (point below) && 0 < below, i.has (point (below + 1)) with
  | true, true =>
    if twice < scaled.den ∨ (twice = scaled.den ∧ below % 2 = 0) then some ⟨below, exponent⟩
    else some ⟨below + 1, exponent⟩
  | true, false => some ⟨below, exponent⟩
  | false, true => some ⟨below + 1, exponent⟩
  | false, false => none

/-- Drop the zeros at the end of the digits. -/
def Scientific.normalize (s : Scientific) : Scientific :=
  if s.coefficient = 0 ∨ s.coefficient % 10 ≠ 0 then s
  else normalize ⟨s.coefficient / 10, s.exponent + 1⟩
termination_by s.coefficient
decreasing_by omega

/-- The fewest digits that read back; seventeen always do. -/
def RoundingInterval.shortest (i : RoundingInterval) : Scientific :=
  let top := i.mid.magnitude
  (((List.range 18).findSome? fun n : Nat => i.gridPoint? (top - (n : Int))).getD ⟨0, 0⟩).normalize

/-- The shortest decimal of a finite positive double, given by its bits without the sign. -/
def shortest (magnitude : Nat) : Scientific :=
  let exponent : Nat := magnitude / Nat.pow 2 52
  let fraction : Nat := magnitude % Nat.pow 2 52
  if exponent = 0 then (RoundingInterval.ofParts fraction (-1074)).shortest
  else (RoundingInterval.ofParts (Nat.pow 2 52 + fraction) ((exponent : Int) - 1075)).shortest

end BufferCheck.Decimal
