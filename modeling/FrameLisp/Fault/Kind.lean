import FrameLisp.Value.Printer

/-!
The kinds of evaluation error. They form a small hierarchy: every kind is an `evalError`, and
reading a variable too early is a case of reading one that has no value.
-/
namespace FrameLisp

/-- A kind of evaluation error. -/
inductive ErrorKind where
  | evalError
  | unboundVariable
  | unassignedVariable
  | unsupportedOperation
  | arityMismatch
  | emptyListAccess
  | argumentTypeError
  | notCallable
  | malformedExpression
  | malformedForm
  | recursionDepthExceeded
deriving DecidableEq, Repr

namespace ErrorKind

/-- Every kind, the more general before the more special. -/
def all : List ErrorKind :=
  [.evalError, .unboundVariable, .unassignedVariable, .unsupportedOperation, .arityMismatch,
    .emptyListAccess, .argumentTypeError, .notCallable, .malformedExpression, .malformedForm,
    .recursionDepthExceeded]

/-- The name that errors are reported under. -/
def name : ErrorKind → String
  | .evalError => "EvalError"
  | .unboundVariable => "UnboundVariable"
  | .unassignedVariable => "UnassignedVariable"
  | .unsupportedOperation => "UnsupportedOperation"
  | .arityMismatch => "ArityMismatch"
  | .emptyListAccess => "EmptyListAccess"
  | .argumentTypeError => "ArgumentTypeError"
  | .notCallable => "NotCallable"
  | .malformedExpression => "MalformedExpression"
  | .malformedForm => "MalformedForm"
  | .recursionDepthExceeded => "RecursionDepthExceeded"

/-- The kind with the given name. -/
def ofName? (text : String) : Option ErrorKind := all.find? fun k => k.name == text

/-- Whether an error of one kind is also one of another. -/
def isA (k : ErrorKind) : ErrorKind → Bool
  | .evalError => true
  | .unboundVariable => k == .unboundVariable || k == .unassignedVariable
  | other => k == other

/-- The kinds that an error of a kind belongs to. -/
def lineage (k : ErrorKind) : List ErrorKind := all.filter k.isA

/-- What is said of a variable without a binding. -/
def unboundText (name : String) : String := "Unbound variable: " ++ name

/-- What is said of a variable that is read before its initializer has finished. -/
def unassignedText (name : String) : String :=
  "Variable " ++ name ++ " used before its letrec initializer completed"

/-- Whether a detail gives no message of its own. -/
def isBlankDetail : Value → Bool
  | .nothing => true
  | .str text => text.isEmpty
  | _ => false

/-- The message of an error that is made from details: a variable, perhaps with a message, for the
    errors about variables, and otherwise any values, several of which are shown as a tuple. -/
def messageOf : ErrorKind → List Value → Option String
  | .unboundVariable, [x] => x.plain.map unboundText
  | .unboundVariable, [x, detail] =>
    if isBlankDetail detail then x.plain.map unboundText else detail.plain
  | .unassignedVariable, [x] => x.plain.map unassignedText
  | _, [] => some ""
  | _, [detail] => detail.plain
  | _, details => (Value.tuple .transient details).inspect

end ErrorKind

end FrameLisp
