import FrameLisp.Binary64.Decimal
import FrameLisp.Text.Blank
import FrameLisp.Text.Digit

/-!
Reading binary64 numbers from decimal text. A numeral is an optional sign, digits with an optional
point among or beside them, and an optional exponent; it denotes the representable number nearest
to the decimal it spells. The infinities and nan have names instead of digits. White space may stand
around a numeral, its digits may be those of any script, and single underscores may stand between
them.
-/
namespace FrameLisp

namespace Binary64

/-- The number nearest to a signed decimal. Decimals outside ±10^±400 are decided by their size
    alone, so that an absurd exponent costs nothing. -/
def ofDecimal (negative : Bool) (d : Decimal) : Binary64 :=
  let size := d.exponent + (toString d.coefficient).length
  if d.coefficient = 0 ∨ size < -400 then .finite negative 0
  else if 400 < size then .infinite negative
  else if 0 ≤ d.exponent then
    round negative (d.coefficient * Nat.pow 10 d.exponent.toNat * unitsPerOne) 1
  else round negative (d.coefficient * unitsPerOne) (Nat.pow 10 (-d.exponent).toNat)

/-- What a numeral denotes. -/
inductive Numeral where
  | number (x : Binary64)
  | nan
deriving DecidableEq

/-- The number that a sequence of decimal digits spells. -/
def digitsValue (digits : List Char) : Nat :=
  digits.foldl (fun total c => total * 10 + (c.toNat - '0'.toNat)) 0

/-- The digits in front of a text, and the rest. -/
def splitDigits (text : List Char) : List Char × List Char :=
  (text.takeWhile Char.isDigit, text.dropWhile Char.isDigit)

/-- The fraction's digits after an optional point, and the rest. -/
def splitFraction : List Char → List Char × List Char
  | '.' :: rest => splitDigits rest
  | rest => ([], rest)

/-- The exponent that a whole text spells: nothing, or a mark, an optional sign and digits. -/
def readExponent? : List Char → Option Int
  | [] => some 0
  | mark :: rest =>
    let (negative, digits) := Text.splitSign rest
    if mark.toLower = 'e' ∧ digits ≠ [] ∧ digits.all Char.isDigit then
      some <| if negative then -(digitsValue digits : Int) else digitsValue digits
    else none

/-- The decimal that an unsigned text spells. -/
def readDecimal? (text : List Char) : Option Decimal :=
  let (whole, afterWhole) := splitDigits text
  let (fraction, afterFraction) := splitFraction afterWhole
  if whole = [] ∧ fraction = [] then none
  else (readExponent? afterFraction).map fun exponent =>
    ⟨digitsValue (whole ++ fraction), exponent - fraction.length⟩

/-- A text without white space around it, in plain digits and without underscores between them. -/
def plainText (text : String) : List Char :=
  Text.joinDigits false ((Text.trim text.toList).map Text.plainDigit)

/-- The number or nan that a text denotes, if it is a numeral. -/
def read? (text : String) : Option Numeral :=
  let (negative, rest) := Text.splitSign (plainText text)
  match String.ofList (rest.map Char.toLower) with
  | "inf" | "infinity" => some (.number (.infinite negative))
  | "nan" => some .nan
  | _ => (readDecimal? rest).map fun d => .number (ofDecimal negative d)

end Binary64

end FrameLisp
