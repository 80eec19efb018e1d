/-!
Binary64 numbers as exact integers. Every finite magnitude of the format is a whole number of units
of 2⁻¹⁰⁷⁴, so a number is a sign and a count of units, and the arithmetic below computes the exact
result first and rounds it once, to the nearest representable number with ties to the even one.
There is no nan here: an operation without a result answers `none`.
-/
namespace FrameLisp

/-- A binary64 number that is not nan: a signed count of units of 2⁻¹⁰⁷⁴, or a signed infinity. -/
inductive Binary64 where
  | finite (negative : Bool) (units : Nat)
  | infinite (negative : Bool)
deriving DecidableEq

namespace Binary64

/-- The number of units in one. -/
def unitsPerOne : Nat := Nat.pow 2 1074

/-- The first power of two beyond every finite magnitude, in units. -/
def unitsBound : Nat := Nat.pow 2 (1024 + 1074)

/-- The distance between neighbouring representable magnitudes around `units`: a magnitude has
    53 significant bits. -/
def spacing (units : Nat) : Nat := Nat.pow 2 (units.log2 - 52)

/-- The whole number nearest to `num / den`; a half goes to the even neighbour. -/
def roundDiv (num den : Nat) : Nat :=
  let quotient := num / den
  let twice := 2 * (num % den)
  if twice < den ∨ (twice = den ∧ quotient % 2 = 0) then quotient else quotient + 1

/-- The representable number nearest to the magnitude `num / den` units with the given sign; a
    magnitude that rounds to 2¹⁰²⁴ or more becomes infinite. -/
def round (negative : Bool) (num den : Nat) : Binary64 :=
  let step := spacing (num / den)
  let units := roundDiv num (den * step) * step
  if units < unitsBound then .finite negative units else .infinite negative

/-- A number itself, unless it is infinite. -/
def finite? : Binary64 → Option Binary64
  | .finite negative units => some (.finite negative units)
  | .infinite _ => none

/-- The nearest number to an integer, unless it rounds beyond the largest finite one. -/
def ofInt? (n : Int) : Option Binary64 := (round (n < 0) (n.natAbs * unitsPerOne) 1).finite?

/-- Whether the sign is minus; zero has a sign too. -/
def isNegative : Binary64 → Bool
  | .finite negative _ => negative
  | .infinite negative => negative

/-- The same magnitude with the other sign. -/
def neg : Binary64 → Binary64
  | .finite negative units => .finite (!negative) units
  | .infinite negative => .infinite (!negative)

/-- A finite number as a signed count of units. -/
def signedUnits (negative : Bool) (units : Nat) : Int :=
  if negative then -(units : Int) else units

/-- The rounded sum. An exact zero is negative only if both terms are, and infinities of opposite
    signs have no sum. -/
def add : Binary64 → Binary64 → Option Binary64
  | .finite s m, .finite t n =>
    let total := signedUnits s m + signedUnits t n
    some <| if total = 0 then .finite (s && t) 0 else round (total < 0) total.natAbs 1
  | .finite _ _, .infinite t => some (.infinite t)
  | .infinite s, .finite _ _ => some (.infinite s)
  | .infinite s, .infinite t => if s = t then some (.infinite s) else none

/-- The rounded difference. -/
def sub (x y : Binary64) : Option Binary64 := add x y.neg

/-- The rounded product. An infinity times zero has none. -/
def mul : Binary64 → Binary64 → Option Binary64
  | .finite s m, .finite t n => some (round (s != t) (m * n) unitsPerOne)
  | .finite s m, .infinite t => if m = 0 then none else some (.infinite (s != t))
  | .infinite s, .finite t n => if n = 0 then none else some (.infinite (s != t))
  | .infinite s, .infinite t => some (.infinite (s != t))

end Binary64

end FrameLisp
