import FrameLisp.Builtin
import FrameLisp.Form

/-!
Evaluation. `step` says what one call of the evaluator does, with the calls nested in it left to a
parameter; `eval` ties the knot, with as many nested calls as it is given. Running out of them is
not a fault of the program but a `Halt` of its own. The room for nested values, which some
primitives need, is the same throughout an evaluation.
-/
namespace FrameLisp

/-- An evaluator: from an expression and its environment to a value. -/
abbrev Evaluator := Value → EnvRef → EvalM Value

namespace Eval

/-- The value of a variable. -/
def variableValue (x : Symbol) (env : EnvRef) : EvalM Value := do
  ofExcept ((← get).store.lookup env x)

/-- Refuses what is not an expression. -/
def refuse (v : Value) : EvalM Value := fail (.notExpression v)

/-- A closure over an environment. -/
def newClosure (params : List Symbol) (body : Value) (env : EnvRef) : EvalM Value :=
  return .closure (← freshStamp) params body env

/-- A new environment that binds names in front of another. -/
def extend (env : EnvRef) (params : List Symbol) (args : List Value) : EvalM EnvRef := do
  let frame ← ofExcept (Frame.bind params args)
  modifyGet (·.withStore (·.extend env frame))

/-- Puts bindings in front of an environment itself. -/
def extendInPlace (env : EnvRef) (params : List Symbol) (args : List Value) : EvalM Unit := do
  let frame ← ofExcept (Frame.bind params args)
  modify (·.mapStore (·.push env frame))

/-- Binds names in the head frame of an environment. -/
def rebindHead (env : EnvRef) (params : List Symbol) (args : List Value) : EvalM Unit := do
  let head ← ofExcept ((← get).store.headFor env params args)
  modify (·.mapStore (·.assignAll head (params.zip args)))

/-- Applies a function to arguments: a primitive acts, and a closure evaluates its body with its
    parameters bound in front of the environment it was made in. -/
def apply (room : Nat) (ev : Evaluator) (fn : Value) (args : List Value) : EvalM Value :=
  match fn with
  | .primitive _ op => op.call room args
  | .closure _ params body env => do
    let inner ← extend env params args
    ev body inner
  | other => fail (.notCallable other)

/-- Makes a closure of a parameter list and a body. -/
def lambdaForm (tail : List Value) (env : EnvRef) : EvalM Value :=
  match tail with
  | [params, body] => do
    let names ← ofExcept (Form.checkParams Keyword.lambda.name params)
    newClosure names body env
  | _ => fail (.malformed .lambdaShape)

/-- Evaluates one of two expressions. -/
def branchForm (ev : Evaluator) (tail : List Value) (env : EnvRef) : EvalM Value :=
  match tail with
  | [condition, consequent, alternative] => do
    let v ← ev condition env
    if v.isTrue then ev consequent env else ev alternative env
  | _ => fail (.malformed .branchShape)

/-- Applies a function of the names to the initializers. -/
def letForm (ev : Evaluator) (tail : List Value) (env : EnvRef) : EvalM Value := do
  let b ← ofExcept (Form.splitBindings Keyword.letPlain.name tail)
  ev (Form.application b) env

/-- Evaluates the initializers where the names are bound already, so that functions among them can
    call each other, and then again as `letForm` does, in that environment. -/
def letRecForm (ev : Evaluator) (tail : List Value) (env : EnvRef) : EvalM Value := do
  let b ← ofExcept (Form.splitBindings Keyword.letRec.name tail)
  let inner ← extend env b.params (b.params.map fun _ => .unassigned)
  let values ← b.inits.mapM (ev · inner)
  rebindHead inner b.params values
  report (.letrecBound b.params)
  ev (Form.application b) inner

/-- Gives a name its value in the frame that bound it before the value was computed, or in a new
    frame of the environment itself. -/
def defineForm (ev : Evaluator) (tail : List Value) (env : EnvRef) : EvalM Value := do
  let (x, expr) ← ofExcept (Form.splitDefine tail)
  let frame? := (← get).store.find? env x
  let v ← ev expr env
  match frame? with
  | some f =>
    report (.rebound x)
    modify (·.mapStore (·.assign f x v))
  | none =>
    report (.defined x)
    modify (·.mapStore (·.push env (Frame.ofPairs [(x, v)])))
  pure .unit

/-- Evaluates a special form. -/
def form (ev : Evaluator) : Keyword → List Value → EnvRef → EvalM Value
  | .lambda, tail, env => lambdaForm tail env
  | .letPlain, tail, env => letForm ev tail env
  | .letRec, tail, env => letRecForm ev tail env
  | .branch, tail, env => branchForm ev tail env
  | .define, tail, env => defineForm ev tail env

/-- The keyword at the head of a sequence. -/
def keyword? : Value → Option Keyword
  | .symbol x => Keyword.ofSymbol? x
  | _ => none

/-- Evaluates a sequence: a special form if a keyword is at its head, whatever the keyword may be
    bound to, and otherwise an application, the function first and the arguments in order. -/
def evalSequence (room : Nat) (ev : Evaluator) (items : List Value) (env : EnvRef) :
    EvalM Value :=
  match items with
  | [] => fail .emptyExpression
  | head :: tail =>
    match keyword? head with
    | some k => form ev k tail env
    | none => do
      let fn ← ev head env
      let args ← tail.mapM (ev · env)
      apply room ev fn args

/-- What one call of the evaluator does. -/
def step (room : Nat) (ev : Evaluator) (e : Value) (env : EnvRef) : EvalM Value :=
  match e with
  | .number x => pure (.number x)
  | .symbol x => variableValue x env
  | .list _ items => evalSequence room ev items env
  | .tuple _ items => evalSequence room ev items env
  | other => refuse other

end Eval

/-- Evaluates an expression with at most `depth` calls nested in each other. -/
def eval (room : Nat) : (depth : Nat) → Evaluator
  | 0, _, _ => throw .exhausted
  | depth + 1, e, env => Eval.step room (eval room depth) e env

end FrameLisp
