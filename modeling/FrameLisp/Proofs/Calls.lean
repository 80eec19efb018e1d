import FrameLisp.Proofs.Form
import FrameLisp.Proofs.Outcome
import Mathlib.Logic.Relation

/-!
The calls of an evaluation. A `Phrase` is what an expression says once its shape has been checked,
and `step_eq_run` says that evaluation acts on the phrase alone. `Call.Makes` are the calls that one
call makes, each with the state that the run has reached by then, and `Call.Visits` all the calls
made during an evaluation.
-/
namespace FrameLisp

/-- What an expression says: its parts, without regard to how it is written. -/
inductive Phrase where
  | number (x : Number)
  | name (x : Symbol)
  | application (head : Value) (args : List Value)
  | lambda (params : List Symbol) (body : Value)
  | letPlain (b : Form.Bindings)
  | letRec (b : Form.Bindings)
  | branch (condition consequent alternative : Value)
  | define (x : Symbol) (expr : Value)

namespace Phrase

/-- What a special form says, if it is well-shaped. -/
def ofForm : Keyword → List Value → Except Fault Phrase
  | .lambda, [params, body] =>
    (Form.checkParams Keyword.lambda.name params).map fun names => .lambda names body
  | .lambda, _ => .error (.malformed .lambdaShape)
  | .letPlain, tail => (Form.splitBindings Keyword.letPlain.name tail).map .letPlain
  | .letRec, tail => (Form.splitBindings Keyword.letRec.name tail).map .letRec
  | .branch, [condition, consequent, alternative] => .ok (.branch condition consequent alternative)
  | .branch, _ => .error (.malformed .branchShape)
  | .define, tail => (Form.splitDefine tail).map fun (x, expr) => .define x expr

/-- What a sequence says. -/
def ofItems : List Value → Except Fault Phrase
  | [] => .error .emptyExpression
  | head :: tail =>
    match Eval.keyword? head with
    | some k => ofForm k tail
    | none => .ok (.application head tail)

/-- What an expression says, if it is one. -/
def of : Value → Except Fault Phrase
  | .number x => .ok (.number x)
  | .symbol x => .ok (.name x)
  | .list _ items => ofItems items
  | .tuple _ items => ofItems items
  | other => .error (.notExpression other)

/-- What the evaluator does for a phrase, with the calls nested in it left to a parameter. -/
def run (room : Nat) (ev : Evaluator) (env : EnvRef) : Phrase → EvalM Value
  | .number x => pure (.number x)
  | .name x => Eval.variableValue x env
  | .application head args => do
    let fn ← ev head env
    let values ← args.mapM (ev · env)
    Eval.apply room ev fn values
  | .lambda params body => Eval.newClosure params body env
  | .letPlain b => ev (Form.application b) env
  | .letRec b => do
    let inner ← Eval.extend env b.params (b.params.map fun _ => .unassigned)
    let values ← b.inits.mapM (ev · inner)
    Eval.rebindHead inner b.params values
    Eval.report (.letrecBound b.params)
    ev (Form.application b) inner
  | .branch condition consequent alternative => do
    let v ← ev condition env
    if v.isTrue then ev consequent env else ev alternative env
  | .define x expr => do
    let frame? := (← get).store.find? env x
    let v ← ev expr env
    match frame? with
    | some f =>
      Eval.report (.rebound x)
      modify (·.mapStore (·.assign f x v))
    | none =>
      Eval.report (.defined x)
      modify (·.mapStore (·.push env (Frame.ofPairs [(x, v)])))
    pure .unit

section
variable (room : Nat) (ev : Evaluator) (env : EnvRef)

private theorem form_eq_run (k : Keyword) (tail : List Value) :
    Eval.form ev k tail env = (do (← Eval.ofExcept (ofForm k tail)).run room ev env) := by
  cases k with
  | lambda =>
    match tail with
    | [params, body] =>
      simp only [Eval.form, Eval.lambdaForm, ofForm]
      cases Form.checkParams Keyword.lambda.name params <;> rfl
    | [] | [_] | _ :: _ :: _ :: _ => rfl
  | letPlain =>
    simp only [Eval.form, Eval.letForm, ofForm]
    cases Form.splitBindings Keyword.letPlain.name tail <;> rfl
  | letRec =>
    simp only [Eval.form, Eval.letRecForm, ofForm]
    cases Form.splitBindings Keyword.letRec.name tail <;> rfl
  | branch =>
    match tail with
    | [_, _, _] => rfl
    | [] | [_] | [_, _] | _ :: _ :: _ :: _ :: _ => rfl
  | define =>
    simp only [Eval.form, Eval.defineForm, ofForm]
    cases Form.splitDefine tail <;> rfl

private theorem evalSequence_eq_run (items : List Value) :
    Eval.evalSequence room ev items env =
      (do (← Eval.ofExcept (ofItems items)).run room ev env) := by
  cases items with
  | nil => rfl
  | cons head tail =>
    simp only [Eval.evalSequence, ofItems]
    cases Eval.keyword? head with
    | some k => exact form_eq_run room ev env k tail
    | none => rfl

/-- Evaluation acts on what an expression says, and refuses an expression that says nothing. -/
theorem step_eq_run (e : Value) :
    Eval.step room ev e env = (do (← Eval.ofExcept (of e)).run room ev env) := by
  cases e with
  | list stamp items => exact evalSequence_eq_run room ev env items
  | tuple stamp items => exact evalSequence_eq_run room ev env items
  | _ => rfl

end

theorem of_functionOf {names : List Symbol} (distinct : names.Nodup) (body : Value) :
    of (Form.functionOf (names.map .symbol) body) = .ok (.lambda names body) := by
  have checked : Form.checkParams Keyword.lambda.name (.list .transient (names.map .symbol)) =
      .ok names := Form.checkParams_eq_ok.mpr ⟨⟨_, rfl⟩, distinct⟩
  show Except.map _ _ = _
  rw [checked]
  rfl

theorem of_application (b : Form.Bindings) :
    of (Form.application b) =
      .ok (.application (Form.functionOf (b.params.map .symbol) b.body) b.inits) := rfl

/-- What the checks of forms ensure: names are distinct, and each has an initializer. -/
def Shaped : Phrase → Prop
  | .lambda params _ => params.Nodup
  | .letPlain b => b.params.Nodup ∧ b.params.length = b.inits.length
  | .letRec b => b.params.Nodup ∧ b.params.length = b.inits.length
  | _ => True

theorem map_eq_ok {α : Type} {r : Except Fault α} {f : α → Phrase} {p : Phrase}
    (ok : r.map f = .ok p) : ∃ a, r = .ok a ∧ f a = p := by
  cases r with
  | error c => simp [Except.map] at ok
  | ok a => exact ⟨a, rfl, by simpa [Except.map] using ok⟩

private theorem map_eq_error {α : Type} {r : Except Fault α} {f : α → Phrase} {c : Fault}
    (error : r.map f = .error c) : r = .error c := by
  cases r with
  | error c' => simpa [Except.map] using error
  | ok a => simp [Except.map] at error

private theorem shaped_ofForm {k : Keyword} {tail : List Value} {p : Phrase}
    (phrase : ofForm k tail = .ok p) : p.Shaped := by
  unfold ofForm at phrase
  split at phrase
  · obtain ⟨names, checked, rfl⟩ := map_eq_ok phrase
    exact (Form.checkParams_eq_ok.mp checked).2
  · cases phrase
  · obtain ⟨b, split, rfl⟩ := map_eq_ok phrase
    obtain ⟨_, _, _, _, lengths, distinct⟩ := Form.splitBindings_eq_ok split
    exact ⟨distinct, lengths⟩
  · obtain ⟨b, split, rfl⟩ := map_eq_ok phrase
    obtain ⟨_, _, _, _, lengths, distinct⟩ := Form.splitBindings_eq_ok split
    exact ⟨distinct, lengths⟩
  · cases phrase
    trivial
  · cases phrase
  · obtain ⟨pair, _, rfl⟩ := map_eq_ok phrase
    trivial

theorem shaped_of {e : Value} {p : Phrase} (phrase : of e = .ok p) : p.Shaped := by
  have sequence {items : List Value} (phrase : ofItems items = .ok p) : p.Shaped := by
    unfold ofItems at phrase
    split at phrase
    · cases phrase
    · split at phrase
      · exact shaped_ofForm phrase
      · cases phrase
        trivial
  cases e with
  | list stamp items => exact sequence phrase
  | tuple stamp items => exact sequence phrase
  | number x =>
    cases phrase
    trivial
  | symbol x =>
    cases phrase
    trivial
  | _ => cases phrase

theorem ofForm_eq_error {k : Keyword} {tail : List Value} {c : Fault}
    (refused : ofForm k tail = .error c) : ∃ how, c = .malformed how := by
  unfold ofForm at refused
  split at refused
  · exact Form.checkParams_eq_error (map_eq_error refused)
  · cases refused
    exact ⟨_, rfl⟩
  · exact Form.splitBindings_eq_error (map_eq_error refused)
  · exact Form.splitBindings_eq_error (map_eq_error refused)
  · cases refused
  · cases refused
    exact ⟨_, rfl⟩
  · exact Form.splitDefine_eq_error (map_eq_error refused)

/-- An expression is refused because it is no expression, is empty, or is a malformed form. -/
theorem of_eq_error {e : Value} {c : Fault} (refused : of e = .error c) :
    c = .notExpression e ∨ c = .emptyExpression ∨ ∃ how, c = .malformed how := by
  have sequence {items : List Value} (refused : ofItems items = .error c) :
      c = .emptyExpression ∨ ∃ how, c = .malformed how := by
    unfold ofItems at refused
    split at refused
    · cases refused
      exact .inl rfl
    · split at refused
      · exact .inr (ofForm_eq_error refused)
      · cases refused
  cases e with
  | list stamp items => exact .inr (sequence refused)
  | tuple stamp items => exact .inr (sequence refused)
  | number x => cases refused
  | symbol x => cases refused
  | _ =>
    cases refused
    exact .inl rfl

theorem of_eq_error_ne_unbound {e : Value} {c : Fault} (refused : of e = .error c) (x : Symbol) :
    c ≠ .unbound x := by
  rcases of_eq_error refused with rfl | rfl | ⟨how, rfl⟩ <;> simp

end Phrase

/-! ## Calls -/

/-- A call of the evaluator: how many calls may be nested, itself among them, and what it starts
    from. -/
structure Call where
  depth : Nat
  expr : Value
  env : EnvRef
  machine : Machine

/-- Evaluating expressions in order, from a state on, comes to an expression in some state. -/
inductive InTurn (ev : Evaluator) (env : EnvRef) : List Value → Machine → Value → Machine → Prop
  | here {e : Value} {rest : List Value} {m : Machine} : InTurn ev env (e :: rest) m e m
  | later {e next v : Value} {rest : List Value} {m m1 m' : Machine} (done : ev e env m = .ok v m1)
      (turn : InTurn ev env rest m1 next m') : InTurn ev env (e :: rest) m next m'

theorem InTurn.mem {ev : Evaluator} {env : EnvRef} {items : List Value} {next : Value}
    {m m' : Machine} (turn : InTurn ev env items m next m') : next ∈ items := by
  induction turn with
  | here => exact List.mem_cons_self
  | later _ _ ih => exact List.mem_cons_of_mem _ ih

/-- A call applies a function: it has evaluated the function and the arguments, which are about to
    be handed over. -/
structure Application (room depth : Nat) (e : Value) (env : EnvRef) (m : Machine) where
  head : Value
  args : List Value
  fn : Value
  values : List Value
  evaluated : Machine
  phrase : Phrase.of e = .ok (.application head args)
  operands : (head :: args).mapM (eval room depth · env) m = .ok (fn :: values) evaluated

/-- A call applies a closure: it has evaluated the function and the arguments, and has bound the
    parameters. -/
structure ClosureCall (room depth : Nat) (e : Value) (env : EnvRef) (m : Machine) where
  head : Value
  args : List Value
  stamp : Stamp
  params : List Symbol
  body : Value
  captured : EnvRef
  values : List Value
  evaluated : Machine
  inner : EnvRef
  entered : Machine
  phrase : Phrase.of e = .ok (.application head args)
  operands : (head :: args).mapM (eval room depth · env) m =
    .ok (.closure stamp params body captured :: values) evaluated
  entry : Eval.extend captured params values evaluated = .ok inner entered

/-- The application of a closure, before its parameters are bound. -/
def ClosureCall.application {room depth : Nat} {e : Value} {env : EnvRef} {m : Machine}
    (call : ClosureCall room depth e env m) : Application room depth e env m :=
  ⟨call.head, call.args, .closure call.stamp call.params call.body call.captured, call.values,
    call.evaluated, call.phrase, call.operands⟩

/-- A call of `letrec` has bound its names to placeholders. -/
structure LetRecOpening (e : Value) (env : EnvRef) (m : Machine) where
  bindings : Form.Bindings
  inner : EnvRef
  opened : Machine
  phrase : Phrase.of e = .ok (.letRec bindings)
  entry : Eval.extend env bindings.params (bindings.params.map fun _ => .unassigned) m =
    .ok inner opened

/-- A call of `letrec` has evaluated its initializers, and its names are about to be bound again. -/
structure LetRecRun (room depth : Nat) (e : Value) (env : EnvRef) (m : Machine) extends
    LetRecOpening e env m where
  values : List Value
  initialized : Machine
  initializers : bindings.inits.mapM (eval room depth · inner) opened = .ok values initialized

/-- A call of `define` has computed the value, and its name is about to get it. -/
structure DefineRun (room depth : Nat) (e : Value) (env : EnvRef) (m : Machine) where
  name : Symbol
  expr : Value
  value : Value
  computed : Machine
  phrase : Phrase.of e = .ok (.define name expr)
  done : eval room depth expr env m = .ok value computed

namespace Call

variable {room depth : Nat} {e : Value} {env : EnvRef} {m : Machine}

/-- The calls that a call makes itself, each from the state in which it makes it. -/
inductive Makes (room : Nat) : Call → Call → Prop
  | operand {depth : Nat} {e head next : Value} {args : List Value} {env : EnvRef} {m m' : Machine}
      (phrase : Phrase.of e = .ok (.application head args))
      (turn : InTurn (eval room depth) env (head :: args) m next m') :
      Makes room ⟨depth + 1, e, env, m⟩ ⟨depth, next, env, m'⟩
  | body {depth : Nat} {e : Value} {env : EnvRef} {m : Machine}
      (call : ClosureCall room depth e env m) :
      Makes room ⟨depth + 1, e, env, m⟩ ⟨depth, call.body, call.inner, call.entered⟩
  | letPlain {depth : Nat} {e : Value} {env : EnvRef} {m : Machine} {b : Form.Bindings}
      (phrase : Phrase.of e = .ok (.letPlain b)) :
      Makes room ⟨depth + 1, e, env, m⟩ ⟨depth, Form.application b, env, m⟩
  | initializer {depth : Nat} {e next : Value} {env : EnvRef} {m m' : Machine}
      (run : LetRecOpening e env m)
      (turn : InTurn (eval room depth) run.inner run.bindings.inits run.opened next m') :
      Makes room ⟨depth + 1, e, env, m⟩ ⟨depth, next, run.inner, m'⟩
  | letRec {depth : Nat} {e : Value} {env : EnvRef} {m m' : Machine}
      (run : LetRecRun room depth e env m)
      (rebound : Eval.rebindHead run.inner run.bindings.params run.values run.initialized =
        .ok () m') :
      Makes room ⟨depth + 1, e, env, m⟩
        ⟨depth, Form.application run.bindings, run.inner,
          m'.addRecord (.letrecBound run.bindings.params)⟩
  | condition {depth : Nat} {e condition consequent alternative : Value} {env : EnvRef}
      {m : Machine} (phrase : Phrase.of e = .ok (.branch condition consequent alternative)) :
      Makes room ⟨depth + 1, e, env, m⟩ ⟨depth, condition, env, m⟩
  | branch {depth : Nat} {e condition consequent alternative v : Value} {env : EnvRef}
      {m m' : Machine} (phrase : Phrase.of e = .ok (.branch condition consequent alternative))
      (done : eval room depth condition env m = .ok v m') :
      Makes room ⟨depth + 1, e, env, m⟩
        ⟨depth, if v.isTrue then consequent else alternative, env, m'⟩
  | define {depth : Nat} {e expr : Value} {x : Symbol} {env : EnvRef} {m : Machine}
      (phrase : Phrase.of e = .ok (.define x expr)) :
      Makes room ⟨depth + 1, e, env, m⟩ ⟨depth, expr, env, m⟩

/-- The calls made during a call, itself among them. -/
def Visits (room : Nat) : Call → Call → Prop := Relation.ReflTransGen (Makes room)

end Call

theorem eval_succ_eq_run (room depth : Nat) (e : Value) (env : EnvRef) :
    eval room (depth + 1) e env =
      (do (← Eval.ofExcept (Phrase.of e)).run room (eval room depth) env) :=
  Phrase.step_eq_run room (eval room depth) env e

section
variable {room depth : Nat} {e : Value} {env : EnvRef} {m : Machine}

theorem eval_of_phrase {p : Phrase} (phrase : Phrase.of e = .ok p) :
    eval room (depth + 1) e env m = p.run room (eval room depth) env m := by
  rw [eval_succ_eq_run, phrase]
  rfl

theorem eval_of_refused {c : Fault} (refused : Phrase.of e = .error c) :
    eval room (depth + 1) e env m = .error (.fault c) m := by
  rw [eval_succ_eq_run, refused]
  rfl

/-- The expression for a function with distinct parameters yields one. -/
theorem eval_functionOf {names : List Symbol} (distinct : names.Nodup) (body : Value) :
    eval room (depth + 1) (Form.functionOf (names.map .symbol) body) env m =
      .ok (.closure ⟨m.stamps⟩ names body env) m.nextStamp.2 :=
  eval_of_phrase (Phrase.of_functionOf distinct body)

/-- What a definition does, from what the expression for its value does. -/
theorem run_define (x : Symbol) (expr : Value) :
    (Phrase.define x expr).run room (eval room depth) env m =
      match eval room depth expr env m with
      | .ok v m1 => .ok .unit <|
        match m.store.find? env x with
        | some f => (m1.addRecord (.rebound x)).mapStore (·.assign f x v)
        | none => (m1.addRecord (.defined x)).mapStore (·.push env (Frame.ofPairs [(x, v)]))
      | .error h m1 => .error h m1 := by
  have opened : (Phrase.define x expr).run room (eval room depth) env m =
      (eval room depth expr env >>= fun v => do
        match m.store.find? env x with
        | some f =>
          Eval.report (.rebound x)
          modify (·.mapStore (·.assign f x v))
        | none =>
          Eval.report (.defined x)
          modify (·.mapStore (·.push env (Frame.ofPairs [(x, v)])))
        pure .unit) m := rfl
  rw [opened]
  cases run : eval room depth expr env m with
  | ok v m1 =>
    rw [bind_ok run]
    cases m.store.find? env x <;> rfl
  | error h m1 => simp [bind, EStateM.bind, run]

end

end FrameLisp
