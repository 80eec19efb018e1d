import FrameLisp.Binary64.Decimal

/-!
The numbers of the language: integers of any size, binary64 numbers, and nans. A nan carries a
stamp, because two nans are the same value only if they come from the same computation.

Comparison is exact. An integer and a binary64 number are both whole numbers of units, so they are
compared on one scale, with an infinity at either end, and nothing is rounded. Arithmetic between
an integer and a binary64 number rounds the integer first.
-/
namespace FrameLisp

/-- What distinguishes two values that have the same contents but were made separately. -/
structure Stamp where
  serial : Nat
deriving DecidableEq, Repr

/-- The stamp of sequences that are made to be evaluated or shown at once, and never compared. -/
def Stamp.transient : Stamp := ⟨0⟩

/-- A number of the language. -/
inductive Number where
  | int (n : Int)
  | float (x : Binary64)
  | nan (stamp : Stamp)
deriving DecidableEq

/-- The scale on which numbers are compared: the whole numbers between two ends. -/
inductive Position where
  | bottom
  | units (n : Int)
  | top
deriving DecidableEq

namespace Position

/-- Whether one position is strictly before another. -/
def before : Position → Position → Bool
  | .bottom, .bottom => false
  | .bottom, _ => true
  | .units _, .bottom => false
  | .units a, .units b => a < b
  | .units _, .top => true
  | .top, _ => false

end Position

namespace Number

/-- Where a number stands on the scale; a nan stands nowhere. -/
def position? : Number → Option Position
  | .int n => some (.units (n * Binary64.unitsPerOne))
  | .float (.finite negative units) => some (.units (Binary64.signedUnits negative units))
  | .float (.infinite negative) => some (if negative then .bottom else .top)
  | .nan _ => none

/-- Exact strict comparison, false when a nan takes part. -/
def lt (a b : Number) : Bool :=
  match a.position?, b.position? with
  | some p, some q => p.before q
  | _, _ => false

/-- Exact comparison, false when a nan takes part. -/
def le (a b : Number) : Bool :=
  match a.position?, b.position? with
  | some p, some q => !q.before p
  | _, _ => false

/-- Numerical equality. A nan equals no number but the very same nan. -/
def same : Number → Number → Bool
  | .nan s, .nan t => s == t
  | a, b =>
    match a.position?, b.position? with
    | some p, some q => p == q
    | _, _ => false

/-- The outcome of an arithmetic operation. -/
inductive Outcome where
  | number (x : Number)
  /-- The operation has no numerical result, so its value is a new nan. -/
  | undefined
  /-- An integer met a binary64 number and rounds beyond the largest of them. -/
  | tooLarge
deriving DecidableEq

/-- An operation: what it does to integers and what it does to binary64 numbers. -/
structure Operation where
  onInts : Int → Int → Int
  onFloats : Binary64 → Binary64 → Option Binary64

/-- Addition. -/
def addition : Operation := ⟨(· + ·), Binary64.add⟩

/-- Subtraction. -/
def subtraction : Operation := ⟨(· - ·), Binary64.sub⟩

/-- Multiplication. -/
def multiplication : Operation := ⟨(· * ·), Binary64.mul⟩

/-- A binary64 operand: a number, or `none` for a nan. -/
abbrev Operand := Option Binary64

/-- A number as a binary64 operand, unless it is an integer too large for that. -/
def operand? : Number → Option Operand
  | .int n => (Binary64.ofInt? n).map some
  | .float x => some (some x)
  | .nan _ => some none

/-- Applies an operation: integers stay integers, anything else is done in binary64. -/
def Operation.apply (op : Operation) : Number → Number → Outcome
  | .int a, .int b => .number (.int (op.onInts a b))
  | a, b =>
    match a.operand?, b.operand? with
    | some (some x), some (some y) =>
      match op.onFloats x y with
      | some z => .number (.float z)
      | none => .undefined
    | some _, some _ => .undefined
    | _, _ => .tooLarge

/-- The most digits an integer may have to be printed. -/
def digitLimit : Nat := 4300

/-- Whether a number can be printed: an integer may have too many digits. -/
def isPrintable : Number → Bool
  | .int n => n.natAbs < Nat.pow 10 digitLimit
  | _ => true

/-- The text of a number of any size. -/
def text : Number → String
  | .int n => toString n
  | .float x => x.text
  | .nan _ => "nan"

/-- The text of a number, if it can be printed. -/
def text? (x : Number) : Option String := if x.isPrintable then some x.text else none

end Number

end FrameLisp
