import FrameLisp.Fault.Basic
import FrameLisp.Text.Blank
import FrameLisp.Text.Digit

/-!
Settings that hold a positive whole number. A setting is a text that may be absent or blank, and
then a default stands for it; any other text must be a numeral: an optional sign and decimal digits
of any script, with single underscores between them where wanted.
-/
namespace FrameLisp

namespace Setting

/-- The digits of a numeral without a sign. -/
def readDigits? : List Char → Option (List Nat)
  | [] => none
  | [c] => (Text.digitValue? c).map fun d => [d]
  | c :: '_' :: rest =>
    match Text.digitValue? c, readDigits? rest with
    | some d, some digits => some (d :: digits)
    | _, _ => none
  | c :: rest =>
    match Text.digitValue? c, readDigits? rest with
    | some d, some digits => some (d :: digits)
    | _, _ => none

/-- The number with the given decimal digits. -/
def ofDigits (digits : List Nat) : Nat := digits.foldl (fun total d => total * 10 + d) 0

/-- The integer that a text spells; there is a limit to the number of digits. -/
def readInt? (text : List Char) : Option Int :=
  let (negative, rest) := Text.splitSign text
  match readDigits? rest with
  | none => none
  | some digits =>
    if digits.length ≤ Number.digitLimit then
      some (if negative then -(ofDigits digits : Int) else ofDigits digits)
    else none

/-- The value of a setting, or the default when the text is absent or blank. -/
def read (setting : String) (default : Option Int) (raw : Option String) :
    Except Fault (Option Int) :=
  match raw with
  | none => .ok default
  | some text =>
    match Text.trim text.toList with
    | [] => .ok default
    | numeral =>
      match readInt? numeral with
      | none => .error (.settingNotInteger setting text)
      | some n => if 0 < n then .ok (some n) else .error (.settingNotPositive setting n)

/-- The setting that bounds how deeply evaluation may nest. -/
def recursionLimitName : String := "MCEVAL_RECURSION_LIMIT"

/-- The bound that the setting gives, if it gives one. -/
def recursionLimit (raw : Option String) : Except Fault (Option Int) :=
  read recursionLimitName none raw

end Setting

end FrameLisp
