import FrameLisp.Fault.Basic

/-!
The shapes of special forms: what stands behind a keyword is split into its parts, or the form is
refused as malformed. `application` and `functionOf` are the expressions that `let`, `letrec` and
the function form of `define` stand for.
-/
namespace FrameLisp

namespace Form

/-- The names in a parameter list, which must be a list of distinct symbols. -/
def checkParams (form : String) : Value → Except Fault (List Symbol)
  | .list stamp items =>
    match items.mapM Value.symbol? with
    | none => .error (.malformed (.params form (.list stamp items)))
    | some names =>
      if names.Nodup then .ok names
      else .error (.malformed (.duplicateParams form (.list stamp items)))
  | other => .error (.malformed (.params form other))

/-- The parts of a form that binds names: the names, an initializer for each, and a body. -/
structure Bindings where
  params : List Symbol
  inits : List Value
  body : Value

/-- The two parts of one binding. -/
def splitBinding (form : String) : Value → Except Fault (Value × Value)
  | .list _ [name, init] => .ok (name, init)
  | other => .error (.malformed (.binding form other))

/-- The parts of a form that binds names. Every binding is looked at before the names are. -/
def splitBindings (form : String) : List Value → Except Fault Bindings
  | [.list _ bindings, body] => do
    let pairs ← bindings.mapM (splitBinding form)
    let params ← checkParams form (.list .transient (pairs.map Prod.fst))
    pure ⟨params, pairs.map Prod.snd, body⟩
  | _ => .error (.malformed (.bindingShape form))

/-- The expression for a function of the given parameters, which nothing has checked. -/
def functionOf (params : List Value) (body : Value) : Value :=
  .list .transient [.symbol Keyword.lambda.symbol, .list .transient params, body]

/-- The application of a function to a form's initializers: the function takes the form's names
    and has its body. -/
def application (b : Bindings) : Value :=
  .list .transient (functionOf (b.params.map .symbol) b.body :: b.inits)

/-- The name that a definition binds and the expression for its value. A list in place of the name
    defines a function. -/
def splitDefine : List Value → Except Fault (Symbol × Value)
  | [target, expr] =>
    match target with
    | .symbol x => .ok (x, expr)
    | .list _ (.symbol f :: params) => .ok (f, functionOf params expr)
    | .list stamp items => .error (.malformed (.header (.list stamp items)))
    | other => .error (.malformed (.target other))
  | _ => .error (.malformed .defineShape)

end Form

end FrameLisp
