import FrameLisp.Proofs.Depth
import Mathlib.Algebra.Ring.Int.Defs

/-!
Levels of reporting. The level that a caller asks for makes no difference to what an evaluation does
to the state, reports apart. It can make a difference to how the evaluation ends: at the debug level
an evaluation error is reported together with the whole expression, and an expression that cannot be
written puts a failure of its own in place of the error. `evaluate_level_iff` says that this is the
only difference, whatever the stack holds, and `evaluate_level_matters` that it occurs.

An expression cannot be written if it holds an integer that is too long, or if it is nested more
deeply than there are levels for. How many there are beside the calls that may be nested is up to
the stack.
-/
namespace FrameLisp

/-- How a computation ends, without the state it leaves. -/
def outcome {ε σ α : Type} : EStateM.Result ε σ α → Except ε α
  | .ok a _ => .ok a
  | .error cause _ => .error cause

/-- A state without its reports. -/
def Machine.unreported (m : Machine) : Machine := { m with records := #[] }

/-- An evaluation ended in an evaluation error, and its expression cannot be written within the
    limit in force. -/
def Unreportable (p : Policy) (e : Value) (ended : Except Fault Value) : Prop :=
  ∃ limit cause obstacle, p.recursionLimit = .ok limit ∧ ended = .error cause ∧
    cause.isEvaluationError = true ∧ showWithin (p.stack.levels limit) e = .error obstacle

section
variable {levels limit : Nat} {e : Value} {cause obstacle : Fault} {m : Machine}

/-- What keeps an expression from being written is no evaluation error. -/
theorem showWithin_eq_error (blocked : showWithin levels e = .error obstacle) :
    obstacle.isEvaluationError = false := by
  unfold showWithin Fault.unlessBlocked at blocked
  split at blocked
  · rename_i first _
    cases blocked
    cases first <;> rfl
  · split at blocked <;> cases blocked
    rfl

/-- An evaluation that ran out of depth reports it at every level, and ends in an evaluation error
    only if its expression can be written. -/
theorem outcome_endExhausted (ended : outcome (endExhausted levels limit e m) = .error cause)
    (error : cause.isEvaluationError = true) : ∃ shown, showWithin levels e = .ok shown := by
  unfold endExhausted at ended
  cases written : showWithin levels e with
  | ok shown => exact ⟨shown, rfl⟩
  | error obstacle =>
    rw [written] at ended
    cases ended
    simp [showWithin_eq_error written] at error

/-- A fault is passed on as it is where debug reports are not wanted. -/
theorem endFaulty_warning : endFaulty .warning levels e cause m = .error cause m := by
  unfold endFaulty
  rw [if_neg (by simp [Level.isKept, Level.rank])]
  rfl

theorem endFaulty_debug_of_failure (failure : cause.isEvaluationError = false) :
    endFaulty .debug levels e cause m = .error cause m := by
  unfold endFaulty
  rw [if_neg (by simp [failure])]
  rfl

theorem endFaulty_debug (error : cause.isEvaluationError = true) (levels : Nat) (e : Value)
    (m : Machine) :
    (∃ shown, showWithin levels e = .ok shown ∧ endFaulty .debug levels e cause m =
      .error cause (m.addRecord (.failed shown cause.message))) ∨
    ∃ obstacle, showWithin levels e = .error obstacle ∧
      endFaulty .debug levels e cause m = .error obstacle m := by
  unfold endFaulty
  rw [if_pos (by simp [error, Level.isKept, Level.rank])]
  cases showWithin levels e with
  | ok shown => exact .inl ⟨shown, rfl, rfl⟩
  | error obstacle => exact .inr ⟨obstacle, rfl, rfl⟩

end

/-- Two evaluations that ended leave the same state, reports apart, and end in the same way unless
    the second ended in an error that could not be reported, which the first then replaced. -/
def EndsLike (p : Policy) (e : Value) (loud quiet : EStateM.Result Fault Machine Value) : Prop :=
  (stateAfter loud).unreported = (stateAfter quiet).unreported ∧
    (outcome loud = outcome quiet ∧ ¬ Unreportable p e (outcome quiet) ∨
      ∃ cause obstacle, outcome quiet = .error cause ∧ outcome loud = .error obstacle ∧
        cause.isEvaluationError = true ∧ obstacle.isEvaluationError = false ∧
        Unreportable p e (outcome quiet))

section
variable {p : Policy} {limit : Nat} {e : Value}

private theorem endsLike_same {r : EStateM.Result Fault Machine Value}
    (reportable : ¬ Unreportable p e (outcome r)) : EndsLike p e r r :=
  ⟨rfl, .inl ⟨rfl, reportable⟩⟩

private theorem endsLike_exhausted (inForce : p.recursionLimit = .ok limit) (m : Machine) :
    EndsLike p e (endExhausted (p.stack.levels limit) limit e m)
      (endExhausted (p.stack.levels limit) limit e m) := by
  refine endsLike_same ?_
  rintro ⟨other, cause, obstacle, same, ended, error, blocked⟩
  cases inForce.symm.trans same
  obtain ⟨shown, written⟩ := outcome_endExhausted ended error
  rw [written] at blocked
  cases blocked

private theorem endsLike_faulty (inForce : p.recursionLimit = .ok limit) (cause : Fault)
    (m : Machine) :
    EndsLike p e (endFaulty .debug (p.stack.levels limit) e cause m)
      (endFaulty .warning (p.stack.levels limit) e cause m) := by
  rw [endFaulty_warning]
  by_cases error : cause.isEvaluationError = true
  · rcases endFaulty_debug error (p.stack.levels limit) e m with
      ⟨shown, written, run⟩ | ⟨obstacle, blocked, run⟩
    · rw [run]
      refine ⟨rfl, .inl ⟨rfl, ?_⟩⟩
      rintro ⟨other, _, obstacle, same, _, _, blocked⟩
      cases inForce.symm.trans same
      rw [written] at blocked
      cases blocked
    · rw [run]
      exact ⟨rfl, .inr ⟨cause, obstacle, rfl, rfl, error, showWithin_eq_error blocked, limit, cause,
        obstacle, inForce, rfl, error, blocked⟩⟩
  · rw [endFaulty_debug_of_failure (by simpa using error)]
    refine endsLike_same ?_
    rintro ⟨_, _, _, _, ended, error', _⟩
    cases ended
    exact error error'

private theorem endsLike_evaluate (p : Policy) (e : Value) (env : EnvRef) (m : Machine) :
    EndsLike p e (evaluate { p with level := .debug } e env m)
      (evaluate { p with level := .warning } e env m) := by
  have sameLimit (level : Level) :
      { p with level := level }.recursionLimit = p.recursionLimit := rfl
  unfold evaluate
  simp only [sameLimit]
  cases inForce : p.recursionLimit with
  | error cause =>
    refine endsLike_same ?_
    rintro ⟨limit, _, _, same, _⟩
    rw [inForce] at same
    cases same
  | ok limit =>
    dsimp only
    cases eval (p.stack.levels limit) (p.stack.calls limit) e env m with
    | ok v m' =>
      refine endsLike_same ?_
      rintro ⟨_, _, _, _, ended, _⟩
      cases ended
    | error h m' =>
      cases h with
      | exhausted => exact endsLike_exhausted inForce m'
      | fault cause =>
        dsimp only
        split
        · exact endsLike_exhausted inForce m'
        · exact endsLike_faulty inForce _ m'

end

/-- Asking for debug reports never changes the state that an evaluation leaves, reports apart, and
    changes its value or fault exactly if it ends in an evaluation error and its expression cannot
    be written; then the caller gets a failure of another class in place of the error. -/
theorem evaluate_level_iff (p : Policy) (e : Value) (env : EnvRef) (m : Machine) :
    let loud := evaluate { p with level := .debug } e env m
    let quiet := evaluate { p with level := .warning } e env m
    (stateAfter loud).unreported = (stateAfter quiet).unreported ∧
      (outcome loud = outcome quiet ↔ ¬ Unreportable p e (outcome quiet)) ∧
      (Unreportable p e (outcome quiet) → ∃ cause obstacle, outcome quiet = .error cause ∧
        outcome loud = .error obstacle ∧ obstacle.faultClass ≠ cause.faultClass) := by
  intro loud quiet
  obtain ⟨state, ⟨same, reportable⟩ |
      ⟨cause, obstacle, ended, replaced, error, failure, blocked⟩⟩ := endsLike_evaluate p e env m
  · exact ⟨state, iff_of_true same reportable, fun blocked => absurd blocked reportable⟩
  · have different : obstacle.faultClass ≠ cause.faultClass := by
      intro same
      simp only [Fault.isEvaluationError, same] at error failure
      simp [error] at failure
    refine ⟨state, iff_of_false ?_ (not_not.mpr blocked), fun _ => ?_⟩
    · intro same
      have causes : obstacle = cause := by
        simpa only [Except.error.injEq] using replaced.symm.trans (same.trans ended)
      exact different (by rw [causes])
    · exact ⟨cause, obstacle, ended, replaced, different⟩

/-- `(list n missing)` for an integer `n` of 4301 digits, such as the square of `10 ^ 2150`. -/
def unwritable : Value :=
  .list ⟨1⟩ [.symbol ⟨"list"⟩, .number (.int (10 ^ Number.digitLimit)), .symbol ⟨"missing"⟩]

/-- An evaluation that ends in an unbound variable at one level ends in another fault at another. -/
theorem evaluate_level_matters :
    ¬ ∀ (p : Policy) (e : Value) (env : EnvRef) (m : Machine),
      outcome (evaluate { p with level := .debug } e env m) =
        outcome (evaluate { p with level := .warning } e env m) := by
  intro same
  let p : Policy := ⟨none, .warning, .halved⟩
  let env := Machine.empty.newGlobal.1
  let m := Machine.empty.newGlobal.2
  have quiet : outcome (evaluate p unwritable env m) = .error (.unbound ⟨"missing"⟩) := rfl
  have long : (Number.int (10 ^ Number.digitLimit)).isPrintable = false := by
    simp [Number.isPrintable, Int.natAbs_pow]
  have blocked : showWithin (p.stack.levels leastLimit) unwritable = .error .unprintable := by
    simp [showWithin, p, Stack.halved, leastLimit, unwritable, Value.obstacle?,
      Value.obstacleWithin, Value.obstacleInItems, long, Fault.unlessBlocked, Fault.ofObstacle]
  refine absurd (same p unwritable env m) ?_
  have loud := (endsLike_evaluate p unwritable env m).2
  rcases loud with ⟨_, reportable⟩ | ⟨cause, obstacle, ended, replaced, error, failure, _⟩
  · exact absurd ⟨leastLimit, _, _, rfl, quiet, rfl, blocked⟩ reportable
  · intro equal
    rw [replaced, ended, Except.error.injEq] at equal
    rw [equal, error] at failure
    cases failure

end FrameLisp
