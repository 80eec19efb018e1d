import FrameLisp.Eval.Basic
import FrameLisp.Setting

/-!
Evaluation for a caller. A policy says how deep evaluation may go and which reports are wanted;
running out of depth becomes a fault that shows the whole expression.
-/
namespace FrameLisp

/-- A computation for a caller: it changes the state and may end in a fault. -/
abbrev FaultM := EStateM Fault Machine

/-- What the stack of the host holds. The price is abstract: how many places a nested call or a
    level of a value takes depends on what is called, and nothing is said of it but that a higher
    recursion limit leaves no less room. -/
structure Stack where
  /-- How many calls may be nested under a recursion limit. -/
  calls : Nat → Nat
  /-- How many levels of a value may be gone through under a recursion limit. -/
  levels : Nat → Nat
  calls_mono : ∀ limit limit', limit ≤ limit' → calls limit ≤ calls limit'
  levels_mono : ∀ limit limit', limit ≤ limit' → levels limit ≤ levels limit'

/-- A stack on which a call and a level take two places each. -/
def Stack.halved : Stack where
  calls limit := limit / 2
  levels limit := limit / 2
  calls_mono _ _ := Nat.div_le_div_right
  levels_mono _ _ := Nat.div_le_div_right

/-- What evaluation depends on besides the expression, the environment and the state. -/
structure Policy where
  /-- The text of the setting for the recursion limit. -/
  limit : Option String
  /-- The least important reports that are wanted. -/
  level : Level
  stack : Stack

/-- The recursion limit that holds whatever the setting. -/
def leastLimit : Nat := 1000

/-- The largest recursion limit that can be set. -/
def greatestLimit : Nat := 2147483647

namespace Policy

/-- The recursion limit in force. -/
def recursionLimit (p : Policy) : Except Fault Nat :=
  match Setting.recursionLimit p.limit with
  | .error cause => .error cause
  | .ok none => .ok leastLimit
  | .ok (some n) =>
    if n.toNat ≤ greatestLimit then .ok (max leastLimit n.toNat) else .error .limitTooLarge

end Policy

/-- The written form of an expression with room for so many levels of nesting. -/
def showWithin (levels : Nat) (e : Value) : Except Fault String :=
  Fault.unlessBlocked (e.obstacle? levels) fun _ => e.display

/-- Ends an evaluation that ran out of depth. -/
def endExhausted (levels limit : Nat) (e : Value) : FaultM Value :=
  match showWithin levels e with
  | .error cause => throw cause
  | .ok shown => do
    modify (·.addRecord (.exhausted limit shown))
    throw (.depthExceeded e)

/-- Ends an evaluation that met a fault; an evaluation error is reported if that is wanted. -/
def endFaulty (level : Level) (levels : Nat) (e : Value) (cause : Fault) : FaultM Value :=
  if cause.isEvaluationError && level.isKept .debug then
    match showWithin levels e with
    | .error other => throw other
    | .ok shown => do
      modify (·.addRecord (.failed shown cause.message))
      throw cause
  else throw cause

/-- Evaluates an expression in an environment. A value that is nested too deeply for what is done
    with it, or to be shown by a fault, exhausts the depth as well. -/
def evaluate (p : Policy) (e : Value) (env : EnvRef) : FaultM Value :=
  match p.recursionLimit with
  | .error cause => throw cause
  | .ok limit => fun m =>
    match eval (p.stack.levels limit) (p.stack.calls limit) e env m with
    | .ok v m => .ok v m
    | .error .exhausted m => endExhausted (p.stack.levels limit) limit e m
    | .error (.fault cause) m =>
      match cause.settle (p.stack.levels limit) with
      | .tooDeep => endExhausted (p.stack.levels limit) limit e m
      | settled => endFaulty p.level (p.stack.levels limit) e settled m

end FrameLisp
