import FrameLisp.Proofs.Obstacle
import FrameLisp.Proofs.Origin
import FrameLisp.Proofs.Overflow
import FrameLisp.Proofs.WellFormed

/-!
How an evaluation for a caller can fail. In a state that is reached by making global environments
and evaluating in them there are no primitives but the language's own, which leaves few failures
(`evaluate_fails_only_for`): errors of the language, arithmetic that overflows, an integer that is
too long to be written in a message or a report, and an expression that is nested too deeply for
the handler of failures to write it. `Explained` has one case for each.
-/
namespace FrameLisp

/-! ## The primitives in play -/

/-- A value is no primitive of the host. -/
def Value.IsNative (v : Value) : Prop := ∀ stamp op, v = .primitive stamp op → op.isHost = false

/-- The host's primitives stay out if none is bound to a name. -/
def nativeness (room : Nat) : Discipline room :=
  .ofKind room Value.IsNative
    (by
      rintro v made stamp op rfl
      cases made)
    (by rintro stamp op ⟨⟩)
    (by rintro stamp params body env _ _ ⟨⟩)

theorem isHost_of_mem_builtin :
    ∀ op ∈ Builtin.listOps ++ Builtin.arithmeticOps, op.isHost = false := by
  decide

theorem holdsNative_newGlobal {m : Machine} (holds : m.store.HoldsOnly Value.IsNative) :
    m.newGlobal.2.store.HoldsOnly Value.IsNative := by
  refine holds.of_binds fun f x v binds => ?_
  rcases binds_newGlobal binds with binds | ⟨_, plain⟩
  · exact .inl binds
  refine .inr (.inr fun part inside => ?_)
  rcases plain part inside with made | ⟨stamp, op, own, rfl⟩
  · rintro stamp op rfl
    cases made
  · rintro _ _ ⟨⟩
    exact isHost_of_mem_builtin op own

/-- No name is bound to a primitive of the host in a reached state. -/
theorem Reached.holdsNative {made : List EnvRef} {m : Machine} (reached : Reached made m) :
    m.store.HoldsOnly Value.IsNative := by
  induction reached with
  | start =>
    intro f x v binds
    cases binds
  | global _ holds => exact holdsNative_newGlobal holds
  | @evaluate made m env _ _ p e holds =>
    rcases evaluate_store p e env m with same | ⟨levels, calls, same⟩
    · rw [same]
      exact holds
    · rw [same]
      let D := nativeness levels
      exact (D.state trivial (D.sound calls e env m holds trivial)).1

/-! ## Faults of evaluation -/

section
variable {room depth : Nat} {e : Value} {env : EnvRef} {m m' : Machine} {c : Fault}

/-- An application of a primitive during a call overflows. -/
def Call.Overflows (room : Nat) (root : Call) : Prop :=
  ∃ depth e env m stamp op, ∃ app : Application room depth e env m,
    Call.Visits room root ⟨depth + 1, e, env, m⟩ ∧ app.fn = .primitive stamp op ∧
      op.Overflows app.values

theorem isEvaluationError_of_refused (refused : Phrase.of e = .error c) :
    c.isEvaluationError = true := by
  rcases Phrase.of_eq_error refused with rfl | rfl | ⟨how, rfl⟩ <;> rfl

theorem isEvaluationError_of_lookup {x : Symbol} (failed : m.store.lookup env x = .error c) :
    c.isEvaluationError = true := by
  unfold Store.lookup at failed
  split at failed <;> cases failed <;> rfl

/-- What a call can raise where no primitive of the host is in play. -/
theorem Call.Raises.cases {origin : Call} (raised : origin.Raises room c)
    (holds : origin.machine.store.HoldsOnly Value.IsNative) :
    c.isEvaluationError = true ∨ c = .tooDeep ∨ c = .intTooLarge ∧ origin.Overflows room := by
  cases raised with
  | refused refused => exact .inl (isEvaluationError_of_refused refused)
  | name _ failed => exact .inl (isEvaluationError_of_lookup failed)
  | @primitive depth e env m _ _ stamp op app function failed =>
    obtain ⟨_, _, native⟩ := (nativeness room).applied app holds trivial
    have own : op.isHost = false := native _ List.mem_cons_self _ .self stamp op function
    rcases op.call_eq_error own failed with error | deep | ⟨large, overflows⟩
    · exact .inl error
    · exact .inr (.inl deep)
    · exact .inr (.inr ⟨large, _, _, _, _, _, op, app, .refl, function, overflows⟩)
  | closure _ _ failed =>
    cases Eval.extend_eq_error failed
    exact .inl rfl
  | notCallable => exact .inl rfl
  | placeholders _ failed =>
    cases Eval.extend_eq_error failed
    exact .inl rfl
  | rebinding run failed =>
    obtain ⟨m', rebound⟩ := run.rebindHead_ok
    cases rebound.symm.trans failed

/-- What evaluation can stop for where no primitive of the host is in play. -/
theorem eval_eq_error (holds : m.store.HoldsOnly Value.IsNative)
    (stopped : eval room depth e env m = .error (.fault c) m') :
    c.isEvaluationError = true ∧ Call.Meets room ⟨depth, e, env, m⟩ c ∨ c = .tooDeep ∨
      c = .intTooLarge ∧ Call.Overflows room ⟨depth, e, env, m⟩ := by
  obtain ⟨origin, visited, raised⟩ := exists_raises room depth e env m c m' stopped
  have inv := ((nativeness room).visits visited holds trivial).1
  rcases raised.cases inv with error | deep | ⟨large, d, e', env', n, stamp, op, app, later, found⟩
  · exact .inl ⟨error, origin, visited, raised⟩
  · exact .inr (.inl deep)
  · exact .inr (.inr ⟨large, d, e', env', n, stamp, op, app, visited.trans later, found⟩)

end

/-! ## Failures -/

/-- The setting for the recursion limit is absent or blank, or a numeral for a limit that can be
    set. -/
def Policy.Valid (p : Policy) : Prop :=
  ∃ n?, Setting.recursionLimit p.limit = .ok n? ∧ ∀ n ∈ n?, 0 < n ∧ n ≤ greatestLimit

theorem Policy.Valid.recursionLimit {p : Policy} (valid : p.Valid) :
    ∃ limit, p.recursionLimit = .ok limit := by
  obtain ⟨n?, read, range⟩ := valid
  unfold Policy.recursionLimit
  rw [read]
  cases n? with
  | none => exact ⟨_, rfl⟩
  | some n =>
    obtain ⟨_, small⟩ := range n rfl
    exact ⟨_, if_pos (Int.toNat_le.mpr small)⟩

/-- The handler of failures writes the whole expression: depth has run out, or an error is to be
    reported. -/
inductive Handles (p : Policy) (levels : Nat) : EStateM.Result Halt Machine Value → Prop
  | exhausted {m : Machine} : Handles p levels (.error .exhausted m)
  | tooDeep {c : Fault} {m : Machine} (settled : c.settle levels = .tooDeep) :
      Handles p levels (.error (.fault c) m)
  | reported {c : Fault} {m : Machine} (error : (c.settle levels).isEvaluationError = true)
      (wanted : p.level.isKept .debug = true) : Handles p levels (.error (.fault c) m)

/-- A value is to be written when an evaluation has failed: the one that a fault shows in its
    message, or the whole expression. -/
inductive Writes (p : Policy) (levels : Nat) (e : Value) :
    EStateM.Result Halt Machine Value → Value → Prop
  | message {c : Fault} {m : Machine} {v : Value} (culprit : c.culprit? = some v) :
      Writes p levels e (.error (.fault c) m) v
  | whole {r : EStateM.Result Halt Machine Value} (handled : Handles p levels r) :
      Writes p levels e r e

/-- Why an evaluation for a caller ends in a fault. -/
inductive Explained (p : Policy) (limit : Nat) (e : Value) (env : EnvRef) (m : Machine) :
    Fault → Prop
  /-- A call raised an error of the language. -/
  | error {c : Fault} (error : c.isEvaluationError = true)
      (met : Call.Meets (p.stack.levels limit) ⟨p.stack.calls limit, e, env, m⟩ c) :
      Explained p limit e env m c
  /-- Depth ran out, which is an error of the language too. -/
  | exhausted : Explained p limit e env m (.depthExceeded e)
  /-- Arithmetic between an integer and a number that is none. -/
  | overflow (met : Call.Overflows (p.stack.levels limit) ⟨p.stack.calls limit, e, env, m⟩) :
      Explained p limit e env m .intTooLarge
  /-- A long integer in what was to be written. -/
  | digits {v : Value} {n : Int}
      (written : Writes p (p.stack.levels limit) e
        (eval (p.stack.levels limit) (p.stack.calls limit) e env m) v)
      (shown : (Value.int n).ShownIn v) (long : 10 ^ Number.digitLimit ≤ n.natAbs) :
      Explained p limit e env m .unprintable
  /-- The whole expression was to be written, and is nested too deeply. -/
  | nesting
      (handled : Handles p (p.stack.levels limit)
        (eval (p.stack.levels limit) (p.stack.calls limit) e env m))
      (nests : e.NestsBeyond (p.stack.levels limit)) : Explained p limit e env m .tooDeep

section
variable {p : Policy} {limit : Nat} {e : Value} {env : EnvRef} {m m1 : Machine} {c : Fault}

/-- An evaluation ended in a fault that is explained. -/
def FailsFor (p : Policy) (limit : Nat) (e : Value) (env : EnvRef) (m : Machine)
    (r : EStateM.Result Fault Machine Value) : Prop :=
  ∃ c m', r = .error c m' ∧ Explained p limit e env m c

theorem explained_of_showWithin
    (handled : Handles p (p.stack.levels limit)
      (eval (p.stack.levels limit) (p.stack.calls limit) e env m))
    (blocked : showWithin (p.stack.levels limit) e = .error c) : Explained p limit e env m c := by
  rcases showWithin_cases blocked with ⟨rfl, digits⟩ | ⟨rfl, nests⟩
  · obtain ⟨n, shown, long⟩ := Value.exists_long_of_obstacle? digits
    exact .digits (.whole handled) shown long
  · exact .nesting handled nests

theorem endExhausted_fails
    (handled : Handles p (p.stack.levels limit)
      (eval (p.stack.levels limit) (p.stack.calls limit) e env m)) :
    FailsFor p limit e env m (endExhausted (p.stack.levels limit) limit e m1) := by
  unfold endExhausted
  cases written : showWithin (p.stack.levels limit) e with
  | error c => exact ⟨c, m1, rfl, explained_of_showWithin handled written⟩
  | ok shown => exact ⟨_, _, rfl, .exhausted⟩

theorem endFaulty_fails (explained : Explained p limit e env m c)
    (handled : c.isEvaluationError = true → p.level.isKept .debug = true →
      Handles p (p.stack.levels limit)
        (eval (p.stack.levels limit) (p.stack.calls limit) e env m)) :
    FailsFor p limit e env m (endFaulty p.level (p.stack.levels limit) e c m1) := by
  unfold endFaulty
  split
  · rename_i reported
    obtain ⟨error, wanted⟩ := Bool.and_eq_true_iff.mp reported
    cases written : showWithin (p.stack.levels limit) e with
    | error c' =>
      exact ⟨c', m1, rfl, explained_of_showWithin (handled error wanted) written⟩
    | ok shown => exact ⟨c, _, rfl, explained⟩
  · exact ⟨c, m1, rfl, explained⟩

/-- A fault of evaluation that is passed on, or what takes its place, is explained. -/
theorem explained_of_settle (holds : m.store.HoldsOnly Value.IsNative)
    (stopped : eval (p.stack.levels limit) (p.stack.calls limit) e env m = .error (.fault c) m1)
    (shallow : c.settle (p.stack.levels limit) ≠ .tooDeep) :
    Explained p limit e env m (c.settle (p.stack.levels limit)) := by
  rcases c.settle_cases (p.stack.levels limit) with same | ⟨v, culprit, ⟨same, digits⟩ | deep⟩
  · rw [same] at shallow ⊢
    rcases eval_eq_error holds stopped with ⟨error, met⟩ | deep | ⟨rfl, overflows⟩
    · exact .error error met
    · exact absurd deep shallow
    · exact .overflow overflows
  · obtain ⟨n, shown, long⟩ := Value.exists_long_of_obstacle? digits
    rw [same]
    refine .digits ?_ shown long
    rw [stopped]
    exact .message culprit
  · exact absurd deep shallow

theorem evaluate_cases (holds : m.store.HoldsOnly Value.IsNative)
    (inForce : p.recursionLimit = .ok limit) :
    (∃ v m', evaluate p e env m = .ok v m') ∨
      FailsFor p limit e env m (evaluate p e env m) := by
  simp only [evaluate, inForce]
  cases stopped : eval (p.stack.levels limit) (p.stack.calls limit) e env m with
  | ok v m1 => exact .inl ⟨v, m1, rfl⟩
  | error h m1 =>
    refine .inr ?_
    cases h with
    | exhausted => exact endExhausted_fails (stopped ▸ .exhausted)
    | fault c =>
      dsimp only
      split
      · rename_i settled
        exact endExhausted_fails (stopped ▸ .tooDeep settled)
      · rename_i shallow
        exact endFaulty_fails (explained_of_settle holds stopped shallow) fun error wanted =>
          stopped ▸ .reported error wanted

end

/-- In a reached state, and with a limit that can be set, an evaluation yields a value or ends in a
    fault that is explained. A `letrec` always gets to bind its names again, and a well-shaped form
    that binds names raises no fault of its own, be it for their number or for anything else. -/
theorem evaluate_fails_only_for {made : List EnvRef} {m : Machine} {p : Policy}
    (reached : Reached made m) (valid : p.Valid) (e : Value) (env : EnvRef) :
    ((∃ v m', evaluate p e env m = .ok v m') ∨
      ∃ c m' limit, evaluate p e env m = .error c m' ∧ p.recursionLimit = .ok limit ∧
        Explained p limit e env m c) ∧
    (∀ room depth e' env' n, ∀ run : LetRecRun room depth e' env' n, ∃ n',
      Eval.rebindHead run.inner run.bindings.params run.values run.initialized = .ok () n') ∧
    ∀ room depth e' env' n c b,
      Phrase.of e' = .ok (.letPlain b) ∨ Phrase.of e' = .ok (.letRec b) →
      ¬ Call.Raises room ⟨depth, e', env', n⟩ c ∧
        ¬ Call.Raises room ⟨depth, Form.application b, env', n⟩ c := by
  refine ⟨?_, fun _ _ _ _ _ run => run.rebindHead_ok, fun _ _ _ _ _ c _ phrase =>
    not_raises_of_bindings phrase c⟩
  obtain ⟨limit, inForce⟩ := valid.recursionLimit
  rcases evaluate_cases reached.holdsNative inForce with done | ⟨c, m', ended, explained⟩
  · exact .inl done
  · exact .inr ⟨c, m', limit, ended, inForce, explained⟩

/-- `(let ((x missing)) x)`. -/
def missingInit : Value :=
  .list ⟨1⟩ [.symbol ⟨"let"⟩, .list ⟨2⟩ [.list ⟨3⟩ [.symbol ⟨"x"⟩, .symbol ⟨"missing"⟩]],
    .symbol ⟨"x"⟩]

/-- A `let` fails for a variable that its initializer refers to, and for no fault of its own. -/
theorem evaluate_fails_only_for_missingInit :
    let env := Machine.empty.newGlobal.1
    let m := Machine.empty.newGlobal.2
    let p : Policy := ⟨some "5000", .debug, .halved⟩
    Reached [env] m ∧ p.Valid ∧
      ∃ m' limit, evaluate p missingInit env m = .error (.unbound ⟨"missing"⟩) m' ∧
        p.recursionLimit = .ok limit ∧
        Explained p limit missingInit env m (.unbound ⟨"missing"⟩) := by
  intro env m p
  have reached : Reached [env] m := .global .start
  have valid : p.Valid := by
    refine ⟨some 5000, rfl, ?_⟩
    rintro n ⟨⟩
    decide
  have failed : ∃ m', evaluate p missingInit env m = .error (.unbound ⟨"missing"⟩) m' := ⟨_, rfl⟩
  obtain ⟨m', failed⟩ := failed
  refine ⟨reached, valid, m', ?_⟩
  rcases (evaluate_fails_only_for reached valid missingInit env).1 with
    ⟨v, m1, done⟩ | ⟨c, m1, limit, ended, inForce, explained⟩
  · cases failed.symm.trans done
  · cases failed.symm.trans ended
    exact ⟨limit, failed, inForce, explained⟩

end FrameLisp
