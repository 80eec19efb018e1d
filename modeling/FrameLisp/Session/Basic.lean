import FrameLisp.Session.Command

/-!
Sessions: commands one after the other on one state. A refused command keeps the changes that were
made before it was refused, and the session goes on.
-/
namespace FrameLisp

/-- A session's state. -/
structure Session where
  machine : Machine
  envs : List (String × EnvRef)
  kept : Kept
  policy : Policy

/-- A command's effect on a session. -/
abbrev SessionM := EStateM Refusal Session

namespace Session

/-- The environment that a session starts with. -/
def globalName : String := "g"

/-- A new session, with one global environment. -/
def start (policy : Policy) : Session :=
  let (env, machine) := Machine.empty.newGlobal
  ⟨machine, [(globalName, env)], [], policy⟩

/-- Runs an action on the session's machine. -/
def perform {α : Type} (action : FaultM α) : SessionM α := fun ⟨machine, envs, kept, policy⟩ =>
  match action machine with
  | .ok a machine => .ok a ⟨machine, envs, kept, policy⟩
  | .error cause machine => .error (.fault cause) ⟨machine, envs, kept, policy⟩

/-- Runs an evaluation outside `evaluate`, under the least recursion limit; running out of depth is
    a fault without a message. -/
def performEval {α : Type} (evaluation : EvalM α) : SessionM α := do
  let levels := (← get).policy.stack.levels leastLimit
  perform fun machine =>
    match evaluation machine with
    | .ok a machine => .ok a machine
    | .error (.fault cause) machine => .error (cause.settle levels) machine
    | .error .exhausted machine => .error .tooDeep machine

/-- Makes values, with stamps from the session's supply. -/
def making {α : Type} (make : Kept → MakeM α) : SessionM α :=
  fun ⟨machine, envs, kept, policy⟩ =>
    match make kept machine.stamps with
    | .ok a stamps => .ok a ⟨{ machine with stamps }, envs, kept, policy⟩
    | .error why stamps => .error why.refusal ⟨{ machine with stamps }, envs, kept, policy⟩

/-- The value of a literal. -/
def makeValue (l : Literal) : SessionM Value := making fun kept => l.make kept

/-- The values of literals. -/
def makeValues (ls : List Literal) : SessionM (List Value) :=
  making fun kept => Literal.makeItems kept ls

/-- The frame that pairs of names and literals write. -/
def makeFrame (pairs : List (Symbol × Literal)) : SessionM Frame := do
  let values ← makeValues (pairs.map Prod.snd)
  pure (Frame.ofPairs ((pairs.map Prod.fst).zip values))

/-- The environment that goes by a name. -/
def envNamed (name : String) : SessionM EnvRef := do
  match Assoc.get? name (← get).envs with
  | some env => pure env
  | none => throw (.unknown name)

/-- Lets an environment go by a name. -/
def nameEnv (name : String) (env : EnvRef) : SessionM Unit :=
  modify fun s => { s with envs := Assoc.insert name env s.envs }

/-- Keeps a value, if a name for it is given. -/
def keep (name : Option String) (v : Value) : SessionM Unit :=
  match name with
  | some name => modify fun s => { s with kept := Assoc.insert name v s.kept }
  | none => pure ()

/-- A written form that must exist. -/
def written : Option String → SessionM String
  | some text => pure text
  | none => throw (.fault .unprintable)

/-- Answers with a value, which is kept first. -/
def answer (name : Option String) (v : Value) : SessionM Reply := do
  keep name v
  return .value v.typeName (← written v.display)

/-- The store as it is. -/
def store : SessionM Store := return (← get).machine.store

/-- A position counted from the front, or from the back if it is negative. -/
def fromFront (size : Nat) (position : Int) : Int :=
  if position < 0 then position + size else position

/-- The frame at a position of an environment. -/
def frameAt (chain : Chain) (position : Int) : SessionM FrameRef :=
  let index := fromFront chain.length position
  match (if index < 0 then none else chain[index.toNat]?) with
  | some f => pure f
  | none => throw (.fault .noFrame)

/-- The first in order of the names that an environment goes by. -/
def firstNameOf (envs : List (String × EnvRef)) (env : EnvRef) : Option String :=
  let names := (envs.filter fun entry => entry.2 = env).map Prod.fst
  (names.mergeSort fun a b => a ≤ b).head?

/-- What a closure is made of. -/
def closureReport (v : Value) : SessionM ClosureReport := do
  match v with
  | .closure _ params body env =>
    let s ← get
    return {
      params
      body := ← written body.display
      env := firstNameOf s.envs env
      size := (s.machine.store.chain env).length
      head := ← written (s.machine.store.headText? env)
      text := ← written v.display }
  | _ => throw .notClosure

/-- Carries out a command about the environment of the given name. -/
def execute (name : String) : Command → SessionM Reply
  | .evaluate expr keep => do
    let env ← envNamed name
    let e ← makeValue expr
    let v ← perform (evaluate (← get).policy e env)
    answer keep v
  | .apply fn args keep => do
    let fn ← makeValue fn
    let args ← makeValues args
    let stack := (← get).policy.stack
    let room := stack.levels leastLimit
    let v ← performEval (Eval.apply room (eval room (stack.calls leastLimit)) fn args)
    answer keep v
  | .lookup x keep => do
    let env ← envNamed name
    let v ← performEval (Eval.variableValue x env)
    answer keep v
  | .find x => do
    let env ← envNamed name
    let s ← store
    return .position ((s.chain env).findIdx? fun f => (s.frame f).binds x)
  | .global => do
    let env ← performEval (modifyGet Machine.newGlobal)
    nameEnv name env
    pure .done
  | .new frames => do
    let frames ← frames.mapM makeFrame
    let env ← performEval (modifyGet (·.withStore (·.newEnvOf frames)))
    nameEnv name env
    pure .done
  | .share position into => do
    let env ← envNamed name
    let chain := (← store).chain env
    let shared := chain.drop (fromFront chain.length position).toNat
    let other ← performEval (modifyGet (·.withStore (·.newEnv shared)))
    nameEnv into other
    pure .done
  | .extend params args into => do
    let env ← envNamed name
    let args ← makeValues args
    let other ← performEval (Eval.extend env params args)
    nameEnv into other
    pure .done
  | .extendInPlace params args => do
    let env ← envNamed name
    let args ← makeValues args
    performEval (Eval.extendInPlace env params args)
    pure .done
  | .rebindHead params args => do
    let env ← envNamed name
    let args ← makeValues args
    performEval (Eval.rebindHead env params args)
    pure .done
  | .assign position x value => do
    let env ← envNamed name
    let v ← makeValue value
    let f ← frameAt ((← store).chain env) position
    performEval (modify (·.mapStore (·.assign f x v)))
    pure .done
  | .host tag arity => do
    let env ← envNamed name
    performEval do
      let stamp ← Eval.freshStamp
      Eval.extendInPlace env [tag] [.primitive stamp (.note tag arity)]
    pure .done
  | .describe => do
    let env ← envNamed name
    let s ← store
    return .environment (← written (s.headText? env)) (← written (s.chainText? env))
  | .openClosure value => do
    let v ← makeValue value
    return .closure (← closureReport v)

/-- Forgets the notes and reports of earlier steps. -/
def clearOutput (m : Machine) : Machine := { m with notes := #[], records := #[] }

/-- The session as a step finds it. -/
def prepare (step : Step) (s : Session) : Session :=
  { s with
    machine := clearOutput s.machine
    policy := { s.policy with limit := step.limit.getD s.policy.limit } }

/-- What a caller is told when a step has ended. -/
def conclude (step : Step) (reply : Except Refusal Reply) (s : Session) : Report :=
  { reply
    size := (Assoc.get? step.env s.envs).map fun env => (s.machine.store.chain env).length
    notes := s.machine.notes.toList
    records := s.machine.records.toList.filter fun r => s.policy.level.isKept r.level }

/-- Carries out a step. -/
def run (s : Session) (step : Step) : Report × Session :=
  match execute step.env step.command (prepare step s) with
  | .ok reply s => (conclude step (.ok reply) s, s)
  | .error refusal s => (conclude step (.error refusal) s, s)

/-- Carries out steps one after the other. -/
def runAll (s : Session) : List Step → List Report
  | [] => []
  | step :: steps =>
    let (report, s) := s.run step
    report :: runAll s steps

end Session

end FrameLisp
