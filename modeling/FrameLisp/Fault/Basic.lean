import FrameLisp.Fault.Kind

/-!
Why an evaluation stops without a value. A `Fault` is the cause, with the value at fault where
there is one; `Fault.wording` is the only place where it is put into words. A fault whose value
cannot be written is another fault instead (`Fault.settle`), which always has a message
(`Fault.isSome_message?_settle`).
-/
namespace FrameLisp

/-- How a special form can be malformed. -/
inductive Malformation where
  | lambdaShape
  | branchShape
  | defineShape
  | bindingShape (form : String)
  | binding (form : String) (culprit : Value)
  | params (form : String) (culprit : Value)
  | duplicateParams (form : String) (culprit : Value)
  | header (culprit : Value)
  | target (culprit : Value)

/-- Why an evaluation stops without a value. -/
inductive Fault where
  | unbound (name : Symbol)
  | unassigned (name : Symbol)
  | dottedPair (culprit : Value)
  | frameArity (params : List Symbol) (given : Nat)
  | rebindArity (expected given : Nat)
  | primitiveArity (tag : Symbol) (expected : Int) (given : Nat)
  | emptyList (f : Unary)
  | expectsList (f : Unary) (culprit : Value)
  | expectsNumbers (f : Binary) (culprit : Value)
  | notCallable (culprit : Value)
  | notExpression (culprit : Value)
  | emptyExpression
  | malformed (how : Malformation)
  /-- The whole evaluation needed more nested calls than it was allowed. -/
  | depthExceeded (expr : Value)
  /-- An integer has too many digits to be written. -/
  | unprintable
  /-- An integer met a binary64 number and rounds beyond the largest of them. -/
  | intTooLarge
  /-- An environment has no frame at the place asked for. -/
  | noFrame
  | settingNotInteger (setting raw : String)
  | settingNotPositive (setting : String) (value : Int)
  | limitTooLarge
  /-- What has to be written or compared is nested too deeply. -/
  | tooDeep

/-- What a fault is reported as: an evaluation error, or a failure below the language. -/
inductive FaultClass where
  | evaluation (kind : ErrorKind)
  | value
  | overflow
  | index
  | recursion
deriving DecidableEq, Repr

namespace Malformation

/-- The value at fault, where there is one. -/
def culprit? : Malformation → Option Value
  | .binding _ v => some v
  | .params _ v => some v
  | .duplicateParams _ v => some v
  | .header v => some v
  | .target v => some v
  | _ => none

/-- The wording of a malformation, in which its value is shown by the given text. -/
def wording (shown : String) : Malformation → String
  | .lambdaShape => "lambda requires a parameter list and a body"
  | .branchShape => "if requires a condition, a then-expression and an else-expression"
  | .defineShape => "define requires exactly 2 arguments"
  | .bindingShape form => form ++ " requires a binding list and a body"
  | .binding form _ => form ++ " binding must be (name expr), got " ++ shown
  | .params form _ => form ++ " parameters must be a list of symbols, got " ++ shown
  | .duplicateParams form _ => form ++ " has duplicate parameters: " ++ shown
  | .header _ => "define: bad function header " ++ shown
  | .target _ => "define: cannot bind " ++ shown

end Malformation

namespace Fault

/-- What a fault is reported as. -/
def faultClass : Fault → FaultClass
  | .unbound _ => .evaluation .unboundVariable
  | .unassigned _ => .evaluation .unassignedVariable
  | .dottedPair _ => .evaluation .unsupportedOperation
  | .frameArity .. => .evaluation .arityMismatch
  | .rebindArity .. => .evaluation .arityMismatch
  | .primitiveArity .. => .evaluation .arityMismatch
  | .emptyList _ => .evaluation .emptyListAccess
  | .expectsList .. => .evaluation .argumentTypeError
  | .expectsNumbers .. => .evaluation .argumentTypeError
  | .notCallable _ => .evaluation .notCallable
  | .notExpression _ => .evaluation .malformedExpression
  | .emptyExpression => .evaluation .malformedExpression
  | .malformed _ => .evaluation .malformedForm
  | .depthExceeded _ => .evaluation .recursionDepthExceeded
  | .unprintable => .value
  | .intTooLarge => .overflow
  | .noFrame => .index
  | .settingNotInteger .. => .value
  | .settingNotPositive .. => .value
  | .limitTooLarge => .overflow
  | .tooDeep => .recursion

/-- Whether a fault is an error of the language rather than a failure below it. -/
def isEvaluationError (f : Fault) : Bool :=
  match f.faultClass with
  | .evaluation _ => true
  | _ => false

/-- The variable that a fault is about. -/
def symbol? : Fault → Option Symbol
  | .unbound x => some x
  | .unassigned x => some x
  | _ => none

/-- The value at fault, where there is one. -/
def culprit? : Fault → Option Value
  | .dottedPair v => some v
  | .expectsList _ v => some v
  | .expectsNumbers _ v => some v
  | .notCallable v => some v
  | .notExpression v => some v
  | .malformed how => how.culprit?
  | .depthExceeded e => some e
  | _ => none

/-- How many of something were expected and how many given. -/
def countText (what : String) (expected : Int) (given : Nat) (owner : String) : String :=
  toString expected ++ " " ++ what ++ owner ++ ", got " ++ toString given

/-- What is said of an integer with too many digits, with a detail of it put in. -/
def tooManyDigitsText (detail : String) : String :=
  "Exceeds the limit (4300 digits) for integer string conversion" ++ detail ++
    "; use sys.set_int_max_str_digits() to increase the limit"

/-- The wording of a fault, in which its value is shown by the given text. -/
def wording (shown : String) : Fault → String
  | .unbound x => ErrorKind.unboundText x.name
  | .unassigned x => ErrorKind.unassignedText x.name
  | .dottedPair _ => "cons onto non-list " ++ shown ++ ": dotted pairs are not supported"
  | .frameArity params given =>
    "Expected " ++ countText "argument(s)" params.length given (" for " ++ symbolsText params)
  | .rebindArity expected given => "Expected " ++ countText "value(s)" expected given ""
  | .primitiveArity tag expected given =>
    tag.name ++ " expects " ++ countText "argument(s)" expected given ""
  | .emptyList f => f.name ++ " of empty list"
  | .expectsList f _ => f.name ++ " expects a list, got " ++ shown
  | .expectsNumbers f _ => f.name ++ " expects numbers, got " ++ shown
  | .notCallable _ => "Cannot apply non-function " ++ shown
  | .notExpression _ => "Not an expression: " ++ shown
  | .emptyExpression => "Cannot evaluate the empty list"
  | .malformed how => how.wording shown
  | .depthExceeded _ => "Maximum recursion depth exceeded evaluating " ++ shown
  | .unprintable => tooManyDigitsText ""
  | .intTooLarge => "int too large to convert to float"
  | .noFrame => "list index out of range"
  | .settingNotInteger setting raw =>
    setting ++ " must be an integer, got " ++ Text.quoted raw
  | .settingNotPositive setting value => setting ++ " must be positive, got " ++ toString value
  | .limitTooLarge => "Python int too large to convert to C int"
  | .tooDeep => "maximum recursion depth exceeded"

/-- The style in which a fault shows its value: what is no expression is inspected. -/
def style : Fault → Style
  | .notExpression _ => .inspect
  | _ => .display

/-- The text that shows a fault's value, empty where there is none. -/
def shown? (f : Fault) : Option String :=
  match f.culprit? with
  | some v => v.render f.style
  | none => some ""

/-- The message of a fault, if its value can be written. -/
def message? (f : Fault) : Option String := f.shown?.map fun shown => f.wording shown

/-- The message of a fault whose value can be written. -/
def message (f : Fault) : String := f.message?.getD ""

/-- The fault that an obstacle to writing is. -/
def ofObstacle : Value.Obstacle → Fault
  | .digits => .unprintable
  | .depth => .tooDeep

/-- What is written if no obstacle stands in the way. -/
def unlessBlocked {α : Type} (obstacle : Option Value.Obstacle) (write : Unit → Option α) :
    Except Fault α :=
  match obstacle with
  | some obstacle => .error (ofObstacle obstacle)
  | none =>
    match write () with
    | some written => .ok written
    | none => .error .unprintable

/-- A fault whose value can be written with room for so many levels of nesting, or the fault that
    keeps it from being written. -/
def settle (levels : Nat) (f : Fault) : Fault :=
  match f.culprit?.bind (Value.obstacle? levels) with
  | some obstacle => ofObstacle obstacle
  | none => f

theorem isSome_message?_settle (levels : Nat) (f : Fault) :
    (f.settle levels).message?.isSome := by
  unfold settle
  split
  · rename_i obstacle _
    cases obstacle <;> rfl
  · rename_i clear
    rw [message?, shown?, Option.isSome_map]
    split
    · rename_i v culprit
      rw [culprit, Option.bind_some] at clear
      exact Value.isSome_render _ v clear
    · rfl

end Fault

end FrameLisp
