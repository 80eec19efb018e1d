import FrameLisp.Eval.Evaluate
import FrameLisp.Literal

/-!
What a caller can ask of a session, and what it is told.
-/
namespace FrameLisp

/-- A request to a session. Environments and kept values go by names. -/
inductive Command where
  /-- Evaluates an expression under the session's policy. -/
  | evaluate (expr : Literal) (keep : Option String)
  /-- Applies a function to values that are not evaluated. -/
  | apply (fn : Literal) (args : List Literal) (keep : Option String)
  | lookup (x : Symbol) (keep : Option String)
  /-- Asks which frame of the environment binds a name. -/
  | find (x : Symbol)
  /-- Makes the environment a new global one. -/
  | global
  /-- Makes the environment a new one of the given frames. -/
  | new (frames : List (List (Symbol × Literal)))
  /-- Makes another environment of the same frames, from a position on. -/
  | share (position : Int) (into : String)
  | extend (params : List Symbol) (args : List Literal) (into : String)
  | extendInPlace (params : List Symbol) (args : List Literal)
  | rebindHead (params : List Symbol) (args : List Literal)
  /-- Binds a name in the frame at a position. -/
  | assign (position : Int) (x : Symbol) (value : Literal)
  /-- Binds a primitive of the host. -/
  | host (tag : Symbol) (arity : Option Int)
  | describe
  /-- Asks what a closure is made of. -/
  | openClosure (value : Literal)

/-- A command, the environment it is about, and perhaps a new text for the limit setting. -/
structure Step where
  env : String
  command : Command
  limit : Option (Option String)

/-- What a closure is made of. -/
structure ClosureReport where
  params : List Symbol
  body : String
  /-- The name of the session's environment that the closure was made in, if it has one. -/
  env : Option String
  size : Nat
  head : String
  text : String

/-- The answer to a command. -/
inductive Reply where
  | value (typeName text : String)
  | position (index : Option Nat)
  | done
  | environment (head chain : String)
  | closure (report : ClosureReport)

/-- Why there is no answer. -/
inductive Refusal where
  | fault (cause : Fault)
  /-- Nothing goes by this name. -/
  | unknown (name : String)
  /-- A numeral has more digits than are read. -/
  | tooManyDigits (count : Nat)
  | notClosure

/-- What is said of a numeral with so many digits. -/
def Refusal.tooManyDigitsText (count : Nat) : String :=
  Fault.tooManyDigitsText (": value has " ++ toString count ++ " digits")

/-- The refusal that a literal without a value leads to. -/
def Literal.Failure.refusal : Literal.Failure → Refusal
  | .unknown name => .unknown name
  | .tooManyDigits count => .tooManyDigits count

/-- What a caller is told about a step. -/
structure Report where
  reply : Except Refusal Reply
  /-- How many frames the step's environment has afterwards. -/
  size : Option Nat
  notes : List (List String)
  records : List Record

end FrameLisp
