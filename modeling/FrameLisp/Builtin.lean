import FrameLisp.Eval.Machine
import FrameLisp.Value.Equality

/-!
The primitives, and the global environment that binds them. The global environment has three
frames: the operations on lists with `nil`, arithmetic and comparison, and the two booleans.

Equality and the primitives that note their arguments for the host go into the values they are
given. They have room for so many levels of nesting, and what is nested more deeply is a fault.
-/
namespace FrameLisp

namespace Unary

/-- The items of a list that may not be empty. -/
def nonEmpty (f : Unary) : Value → Except Fault (Value × List Value)
  | .list _ [] => .error (.emptyList f)
  | .list _ (first :: rest) => .ok (first, rest)
  | other => .error (.expectsList f other)

/-- What an operation makes of its argument. -/
def call : Unary → Value → EvalM Value
  | .isNull, v => pure (.bool v.isNull)
  | .car, v => Eval.ofExcept ((nonEmpty .car v).map Prod.fst)
  | .cdr, v => do
    let (_, rest) ← Eval.ofExcept (nonEmpty .cdr v)
    Eval.newList rest

end Unary

namespace Binary

/-- The arguments as numbers; the first that is none is refused. -/
def numbers (f : Binary) (a b : Value) : Except Fault (Number × Number) :=
  match a.number?, b.number? with
  | some x, some y => .ok (x, y)
  | none, _ => .error (.expectsNumbers f a)
  | some _, none => .error (.expectsNumbers f b)

/-- The result of a comparison. -/
def compare (f : Binary) (test : Number → Number → Bool) (a b : Value) : Except Fault Value :=
  (numbers f a b).map fun (x, y) => .bool (test x y)

/-- The result of arithmetic; a nan is always a new one. -/
def compute (f : Binary) (op : Number.Operation) (a b : Value) : EvalM Value := do
  let (x, y) ← Eval.ofExcept (numbers f a b)
  match op.apply x y with
  | .number z => pure (.number z)
  | .undefined => return .number (.nan (← Eval.freshStamp))
  | .tooLarge => Eval.fail .intTooLarge

/-- A list with a value in front of the items of another. -/
def consOnto (a : Value) : Value → EvalM Value
  | .list _ items => Eval.newList (a :: items)
  | other => Eval.fail (.dottedPair other)

/-- Whether values are equal, which must be found out within the room there is. -/
def decideEqual (room : Nat) (a b : Value) : EvalM Value :=
  match Value.equal? .apart room a b with
  | some answer => pure (.bool answer)
  | none => Eval.fail .tooDeep

/-- What an operation makes of its arguments. -/
def call (room : Nat) : Binary → Value → Value → EvalM Value
  | .cons, a, b => consOnto a b
  | .add, a, b => compute .add Number.addition a b
  | .sub, a, b => compute .sub Number.subtraction a b
  | .mul, a, b => compute .mul Number.multiplication a b
  | .gt, a, b => Eval.ofExcept (compare .gt (fun x y => y.lt x) a b)
  | .ge, a, b => Eval.ofExcept (compare .ge (fun x y => y.le x) a b)
  | .lt, a, b => Eval.ofExcept (compare .lt Number.lt a b)
  | .le, a, b => Eval.ofExcept (compare .le Number.le a b)
  | .equal, a, b => decideEqual room a b

end Binary

namespace Op

/-- The written forms of arguments, within the room there is. -/
def writeAll (room : Nat) (args : List Value) : Except Fault (List String) :=
  Fault.unlessBlocked (Value.obstacleInItems room args) fun _ => Value.renderItems .display args

/-- Notes a call for the host. The call counts even when its arguments cannot be written; its
    value is the first argument, or the count when there is none. -/
def noteCall (room : Nat) (args : List Value) : EvalM Value := do
  let count ← modifyGet Machine.countCall
  let texts ← Eval.ofExcept (writeAll room args)
  modify (·.addNote texts)
  pure (args.head?.getD (.int count))

/-- Whether a primitive accepts a number of arguments. -/
def accepts (op : Op) (count : Nat) : Bool :=
  match op.arity with
  | some n => n == count
  | none => true

/-- Applies a primitive to its arguments. -/
def call (room : Nat) (op : Op) (args : List Value) : EvalM Value :=
  match op, args with
  | .unary f, [a] => f.call a
  | .binary f, [a, b] => f.call room a b
  | .list, items => Eval.newList items
  | .note tag arity, args =>
    if accepts (.note tag arity) args.length then noteCall room args
    else Eval.fail (.primitiveArity tag (arity.getD 0) args.length)
  | op, args => Eval.fail (.primitiveArity op.tag (op.arity.getD 0) args.length)

end Op

namespace Builtin

/-- The primitives on lists. -/
def listOps : List Op := [.unary .isNull, .binary .cons, .unary .car, .unary .cdr, .list]

/-- The primitives of arithmetic and comparison. -/
def arithmeticOps : List Op :=
  [.binary .add, .binary .sub, .binary .mul, .binary .gt, .binary .ge, .binary .lt, .binary .le,
    .binary .equal]

/-- Primitives under their names, with stamps from a serial on. -/
def primitives (serial : Nat) : List Op → List (Symbol × Value)
  | [] => []
  | op :: ops => (op.tag, .primitive ⟨serial⟩ op) :: primitives (serial + 1) ops

/-- The frame of lists. -/
def listFrame (serial : Nat) : Frame :=
  ⟨(⟨"nil"⟩, .list ⟨serial⟩ []) :: primitives (serial + 1) listOps⟩

/-- The frame of arithmetic and comparison. -/
def arithmeticFrame (serial : Nat) : Frame := ⟨primitives serial arithmeticOps⟩

/-- The frame of booleans. -/
def booleanFrame : Frame := ⟨[(⟨"true"⟩, .bool true), (⟨"false"⟩, .bool false)]⟩

/-- The frames of a global environment. -/
def frames (serial : Nat) : List Frame :=
  [listFrame serial, arithmeticFrame (serial + 1 + listOps.length), booleanFrame]

/-- How many stamps a global environment takes. -/
def stampCount : Nat := 1 + listOps.length + arithmeticOps.length

end Builtin

namespace Machine

/-- Makes a global environment, which shares nothing with any other. -/
def newGlobal (m : Machine) : EnvRef × Machine :=
  let serial := m.stamps
  let (env, m) := m.withStore (·.newEnvOf (Builtin.frames serial))
  (env, { m with stamps := serial + Builtin.stampCount })

end Machine

end FrameLisp
