import FrameLisp.Binary64.Basic

/-!
The decimal text of a binary64 number: the fewest significant digits that read back as the same
number, and of those the nearest to it. A unit is 5¹⁰⁷⁴ · 10⁻¹⁰⁷⁴, so a number is an exact decimal
with 1074 places and both the number and its rounding interval can be compared with a decimal grid
in whole numbers.
-/
namespace FrameLisp

/-- The decimal number `coefficient · 10 ^ exponent`. -/
structure Decimal where
  coefficient : Nat
  exponent : Int
deriving DecidableEq

namespace Decimal

/-- Moves trailing zeros of the coefficient into the exponent; at most `fuel` of them. -/
def stripZeros : Nat → Decimal → Decimal
  | 0, d => d
  | fuel + 1, d =>
    if d.coefficient ≠ 0 ∧ d.coefficient % 10 = 0 then
      stripZeros fuel ⟨d.coefficient / 10, d.exponent + 1⟩
    else d

/-- How a decimal is laid out as text. -/
structure Layout where
  /-- The least decimal exponent written without an exponent mark. -/
  leastPositional : Int
  /-- The least decimal exponent above that which needs the mark again. -/
  leastScientific : Int
  /-- The fewest digits of a written exponent. -/
  exponentDigits : Nat

/-- Zeros in front of a text up to the given length. -/
def padLeft (length : Nat) (text : String) : String :=
  String.ofList (List.replicate (length - text.length) '0') ++ text

/-- The exponent mark, its sign and its digits. -/
def exponentText (layout : Layout) (exponent : Int) : String :=
  (if exponent < 0 then "e-" else "e+") ++
    padLeft layout.exponentDigits (toString exponent.natAbs)

/-- The text of a decimal. A positional whole number keeps one zero after the point; with an
    exponent mark a single digit stands without a point. -/
def layOut (layout : Layout) (d : Decimal) : String :=
  let digits := (toString d.coefficient).toList
  let count := digits.length
  let point := d.exponent + count
  let leading := point - 1
  if layout.leastPositional ≤ leading ∧ leading < layout.leastScientific then
    if point ≤ 0 then
      "0." ++ String.ofList (List.replicate (-point).toNat '0' ++ digits)
    else if count ≤ point.toNat then
      String.ofList (digits ++ List.replicate (point.toNat - count) '0') ++ ".0"
    else
      String.ofList (digits.take point.toNat) ++ "." ++ String.ofList (digits.drop point.toNat)
  else
    String.ofList (digits.take 1) ++
      (if count = 1 then "" else "." ++ String.ofList (digits.drop 1)) ++
      exponentText layout leading

end Decimal

namespace Binary64

/-- One unit is this many steps of the 1074-th decimal place. -/
def placesPerUnit : Nat := Nat.pow 5 1074

/-- The magnitudes that round to a number, in quarter units: the midpoints to its two neighbours.
    Below a power of two the neighbours stand closer together. -/
structure Interval where
  lower : Nat
  upper : Nat
  /-- Whether the ends round to the number, which they do when its significand is even. -/
  closed : Bool

/-- The rounding interval of a positive magnitude. -/
def interval (units : Nat) : Interval :=
  let step := spacing units
  let significand := units / step
  { lower := 4 * units - (if significand = Nat.pow 2 52 ∧ step ≠ 1 then step else 2 * step)
    upper := 4 * units + 2 * step
    closed := significand % 2 = 0 }

/-- Whether the decimal `places · 10⁻¹⁰⁷⁴` lies in an interval. -/
def Interval.contains (i : Interval) (places : Nat) : Bool :=
  let lower := i.lower * placesPerUnit
  let upper := i.upper * placesPerUnit
  let quarters := 4 * places
  if i.closed then lower ≤ quarters ∧ quarters ≤ upper else lower < quarters ∧ quarters < upper

/-- The better of the two neighbours of `places` on the grid of multiples of `grid`, if either
    reads back: the nearer of two, the even multiple when both are as near. -/
def nearestOnGrid (i : Interval) (places grid : Nat) : Option Nat :=
  let below := places / grid
  let above := below + 1
  let rest := places % grid
  match i.contains (below * grid), i.contains (above * grid) with
  | true, true =>
    some <| if 2 * rest < grid ∨ (2 * rest = grid ∧ below % 2 = 0) then below else above
  | true, false => some below
  | false, true => some above
  | false, false => none

/-- Tries grids of more and more digits, `fuel` of them, the finest being the exact places. -/
def searchGrids (i : Interval) (places size : Nat) : Nat → Nat → Decimal
  | 0, _ => ⟨places, -1074⟩
  | fuel + 1, digits =>
    let shift := size - digits
    match nearestOnGrid i places (Nat.pow 10 shift) with
    | some coefficient => ⟨coefficient, (shift : Int) - 1074⟩
    | none => searchGrids i places size fuel (digits + 1)

/-- The shortest decimal that reads back as the positive magnitude `units`. Seventeen digits
    always suffice. -/
def shortest (units : Nat) : Decimal :=
  let places := units * placesPerUnit
  (searchGrids (interval units) places (toString places).length 17 1).stripZeros 17

/-- Numbers are written positionally from 10⁻⁴ up to 10¹⁶, and an exponent has two digits at
    least. -/
def layout : Decimal.Layout := ⟨-4, 16, 2⟩

/-- The text of a magnitude. -/
def magnitudeText (units : Nat) : String :=
  if units = 0 then "0.0" else (shortest units).layOut layout

/-- The text of a number. -/
def text : Binary64 → String
  | .finite negative units => (if negative then "-" else "") ++ magnitudeText units
  | .infinite negative => if negative then "-inf" else "inf"

end Binary64

end FrameLisp
