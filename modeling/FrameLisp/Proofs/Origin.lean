import FrameLisp.Proofs.Shape

/-!
Where faults come from. A fault that ends an evaluation was raised by one of the calls made on the
way (`exists_raises`), and `Call.Raises` lists all the places where a call can raise one. Two of
them are never come to: the placeholders of `letrec` can always be bound, and later be replaced
(`LetRecRun.rebindHead_ok`). So a `let` or `letrec` that is well-shaped raises nothing, and neither
does the application that it stands for (`not_raises_of_bindings`).
-/
namespace FrameLisp

/-- A call itself comes upon a fault, rather than a call nested in it. -/
inductive Call.Raises (room : Nat) : Call → Fault → Prop
  | refused {depth : Nat} {e : Value} {env : EnvRef} {m : Machine} {c : Fault}
      (refused : Phrase.of e = .error c) : Raises room ⟨depth + 1, e, env, m⟩ c
  | name {depth : Nat} {e : Value} {env : EnvRef} {m : Machine} {c : Fault} {x : Symbol}
      (phrase : Phrase.of e = .ok (.name x)) (failed : m.store.lookup env x = .error c) :
      Raises room ⟨depth + 1, e, env, m⟩ c
  | primitive {depth : Nat} {e : Value} {env : EnvRef} {m m' : Machine} {c : Fault} {stamp : Stamp}
      {op : Op} (app : Application room depth e env m) (function : app.fn = .primitive stamp op)
      (failed : op.call room app.values app.evaluated = .error (.fault c) m') :
      Raises room ⟨depth + 1, e, env, m⟩ c
  | closure {depth : Nat} {e body : Value} {env captured : EnvRef} {m m' : Machine} {c : Fault}
      {stamp : Stamp} {params : List Symbol} (app : Application room depth e env m)
      (function : app.fn = .closure stamp params body captured)
      (failed : Eval.extend captured params app.values app.evaluated = .error (.fault c) m') :
      Raises room ⟨depth + 1, e, env, m⟩ c
  | notCallable {depth : Nat} {e : Value} {env : EnvRef} {m : Machine}
      (app : Application room depth e env m) (primitive : ∀ stamp op, app.fn ≠ .primitive stamp op)
      (closure : ∀ stamp params body captured, app.fn ≠ .closure stamp params body captured) :
      Raises room ⟨depth + 1, e, env, m⟩ (.notCallable app.fn)
  | placeholders {depth : Nat} {e : Value} {env : EnvRef} {m m' : Machine} {c : Fault}
      {b : Form.Bindings} (phrase : Phrase.of e = .ok (.letRec b))
      (failed : Eval.extend env b.params (b.params.map fun _ => .unassigned) m =
        .error (.fault c) m') : Raises room ⟨depth + 1, e, env, m⟩ c
  | rebinding {depth : Nat} {e : Value} {env : EnvRef} {m m' : Machine} {c : Fault}
      (run : LetRecRun room depth e env m)
      (failed : Eval.rebindHead run.inner run.bindings.params run.values run.initialized =
        .error (.fault c) m') : Raises room ⟨depth + 1, e, env, m⟩ c

/-! ## The origin of a fault -/

/-- Evaluating expressions in order stops at one of them. -/
theorem exists_inTurn_of_mapM {ev : Evaluator} {env : EnvRef} {items : List Value} {h : Halt}
    {m m' : Machine} (stopped : items.mapM (ev · env) m = .error h m') :
    ∃ next m1, InTurn ev env items m next m1 ∧ ev next env m1 = .error h m' := by
  induction items generalizing m with
  | nil => cases stopped
  | cons e rest ih =>
    rw [List.mapM_cons] at stopped
    rcases bind_eq_error stopped with stopped | ⟨v, m1, done, stopped⟩
    · exact ⟨e, m, .here, stopped⟩
    rcases bind_eq_error stopped with stopped | ⟨vs, m2, _, stopped⟩
    · obtain ⟨next, m2, turn, stopped⟩ := ih stopped
      exact ⟨next, m2, .later done turn, stopped⟩
    · cases stopped

section
variable {room depth : Nat} {e : Value} {env : EnvRef} {m m' : Machine} {c : Fault}

/-- A fault was raised during a call. -/
def Call.Meets (room : Nat) (root : Call) (c : Fault) : Prop :=
  ∃ origin, Call.Visits room root origin ∧ origin.Raises room c

theorem Call.Raises.meets {root : Call} (raised : root.Raises room c) : root.Meets room c :=
  ⟨root, .refl, raised⟩

theorem Call.Makes.meets {root next : Call} (made : Call.Makes room root next)
    (meets : next.Meets room c) : root.Meets room c := by
  obtain ⟨origin, visited, raised⟩ := meets
  exact ⟨origin, .head made visited, raised⟩

/-- Calls of a depth that end in a fault meet it on the way. -/
def MeetsFaults (room depth : Nat) : Prop :=
  ∀ e env m c m', eval room depth e env m = .error (.fault c) m' →
    Call.Meets room ⟨depth, e, env, m⟩ c

private theorem meets_of_apply (faults : MeetsFaults room depth)
    (app : Application room depth e env m)
    (stopped : Eval.apply room (eval room depth) app.fn app.values app.evaluated =
      .error (.fault c) m') : Call.Meets room ⟨depth + 1, e, env, m⟩ c := by
  cases function : app.fn with
  | primitive stamp op =>
    rw [function] at stopped
    exact (Call.Raises.primitive app function stopped).meets
  | closure stamp params body captured =>
    rw [function] at stopped
    rcases bind_eq_error stopped with stopped | ⟨inner, entered, entry, stopped⟩
    · exact (Call.Raises.closure app function stopped).meets
    · let call : ClosureCall room depth e env m :=
        ⟨app.head, app.args, stamp, params, body, captured, app.values, app.evaluated, inner,
          entered, app.phrase, function ▸ app.operands, entry⟩
      exact (Call.Makes.body call).meets (faults _ _ _ _ _ stopped)
  | _ =>
    rw [function] at stopped
    cases stopped
    rw [← function]
    exact (Call.Raises.notCallable app (by simp [function]) (by simp [function])).meets

private theorem meets_of_application (faults : MeetsFaults room depth) {head : Value}
    {args : List Value} (phrase : Phrase.of e = .ok (.application head args))
    (stopped : (Phrase.application head args).run room (eval room depth) env m =
      .error (.fault c) m') : Call.Meets room ⟨depth + 1, e, env, m⟩ c := by
  rcases bind_eq_error stopped with stopped | ⟨fn, m1, first, stopped⟩
  · exact (Call.Makes.operand phrase .here).meets (faults _ _ _ _ _ stopped)
  rcases bind_eq_error stopped with stopped | ⟨values, m2, later, stopped⟩
  · obtain ⟨next, m2, turn, stopped⟩ := exists_inTurn_of_mapM stopped
    exact (Call.Makes.operand phrase (.later first turn)).meets (faults _ _ _ _ _ stopped)
  · exact meets_of_apply faults ⟨head, args, fn, values, m2, phrase, mapM_cons_ok first later⟩
      stopped

private theorem meets_of_letRec (faults : MeetsFaults room depth) {b : Form.Bindings}
    (phrase : Phrase.of e = .ok (.letRec b))
    (stopped : (Phrase.letRec b).run room (eval room depth) env m = .error (.fault c) m') :
    Call.Meets room ⟨depth + 1, e, env, m⟩ c := by
  rcases bind_eq_error stopped with stopped | ⟨inner, opened, entry, stopped⟩
  · exact (Call.Raises.placeholders phrase stopped).meets
  let opening : LetRecOpening e env m := ⟨b, inner, opened, phrase, entry⟩
  rcases bind_eq_error stopped with stopped | ⟨values, initialized, done, stopped⟩
  · obtain ⟨next, m1, turn, stopped⟩ := exists_inTurn_of_mapM stopped
    exact (Call.Makes.initializer opening turn).meets (faults _ _ _ _ _ stopped)
  let run : LetRecRun room depth e env m := ⟨opening, values, initialized, done⟩
  rcases bind_eq_error stopped with stopped | ⟨_, m1, rebound, stopped⟩
  · exact (Call.Raises.rebinding run stopped).meets
  · exact (Call.Makes.letRec run rebound).meets (faults _ _ _ _ _ stopped)

private theorem meets_of_define (faults : MeetsFaults room depth) {x : Symbol} {expr : Value}
    (phrase : Phrase.of e = .ok (.define x expr))
    (stopped : (Phrase.define x expr).run room (eval room depth) env m = .error (.fault c) m') :
    Call.Meets room ⟨depth + 1, e, env, m⟩ c := by
  rcases bind_eq_error stopped with stopped | ⟨_, _, same, stopped⟩
  · cases stopped
  cases same
  rcases bind_eq_error stopped with stopped | ⟨v, m1, _, stopped⟩
  · exact (Call.Makes.define phrase).meets (faults _ _ _ _ _ stopped)
  · cases found : m.store.find? env x <;> rw [found] at stopped <;> cases stopped

end

/-- A fault that ends an evaluation was raised by a call made on the way. -/
theorem exists_raises (room depth : Nat) : MeetsFaults room depth := by
  induction depth with
  | zero =>
    intro e env m c m' stopped
    cases stopped
  | succ depth faults =>
    intro e env m c m' stopped
    rw [eval_succ_eq_run] at stopped
    rcases phrase : Phrase.of e with c' | p
    · rw [phrase] at stopped
      cases stopped
      exact (Call.Raises.refused phrase).meets
    rw [phrase] at stopped
    replace stopped : p.run room (eval room depth) env m = .error (.fault c) m' := stopped
    cases p with
    | number x => cases stopped
    | name x =>
      obtain ⟨_, same, failed⟩ := ofExcept_eq_error (r := m.store.lookup env x) stopped
      cases same
      exact (Call.Raises.name phrase failed).meets
    | application head args => exact meets_of_application faults phrase stopped
    | lambda params body => cases stopped
    | letPlain b => exact (Call.Makes.letPlain phrase).meets (faults _ _ _ _ _ stopped)
    | letRec b => exact meets_of_letRec faults phrase stopped
    | branch condition consequent alternative =>
      rcases bind_eq_error stopped with stopped | ⟨v, m1, done, stopped⟩
      · exact (Call.Makes.condition phrase).meets (faults _ _ _ _ _ stopped)
      · have taken : eval room depth (if v.isTrue then consequent else alternative) env m1 =
            .error (.fault c) m' := by
          rw [← stopped]
          split <;> rfl
        exact (Call.Makes.branch phrase done).meets (faults _ _ _ _ _ taken)
    | define x expr => exact meets_of_define faults phrase stopped

/-! ## Forms that bind names -/

section
variable {room depth : Nat} {e : Value} {env : EnvRef} {m : Machine}

/-- Each name can be bound to a placeholder. -/
theorem extend_placeholders (env : EnvRef) (params : List Symbol) (m : Machine) :
    ∃ inner m', Eval.extend env params (params.map fun _ => .unassigned) m = .ok inner m' :=
  ⟨_, _, Eval.extend_of_bind (Frame.bind_eq_ok.mpr ⟨by simp, rfl⟩)⟩

/-- When the initializers have been evaluated there is a frame to bind the names in, whatever the
    initializers have done, and there are as many values as names. -/
theorem LetRecRun.rebindHead_ok (run : LetRecRun room depth e env m) :
    ∃ m', Eval.rebindHead run.inner run.bindings.params run.values run.initialized =
      .ok () m' := by
  obtain ⟨_, _, made, opened⟩ := fixes_of_extend run.entry
  obtain ⟨new, grown, _⟩ := run.grows.pushed made
  have lengths : run.bindings.params.length = run.values.length :=
    (Phrase.shaped_of run.phrase).2.trans (length_of_mapM run.initializers).symm
  have nonEmpty : run.initialized.store.chain run.inner ≠ [] := by
    rw [grown, opened]
    simp
  obtain ⟨head, rest, chain⟩ := List.exists_cons_of_ne_nil nonEmpty
  have found := Store.headFor_eq_ok.mpr ⟨lengths, rest, chain⟩
  rw [Eval.rebindHead_eq, found]
  exact ⟨_, rfl⟩

/-- The application that a form stands for calls a function that takes as many arguments. -/
theorem Application.extend_ok {b : Form.Bindings} (distinct : b.params.Nodup)
    (lengths : b.params.length = b.inits.length)
    (app : Application room depth (Form.application b) env m) :
    ∃ stamp, app.fn = .closure stamp b.params b.body env ∧
      ∃ inner m', Eval.extend env b.params app.values app.evaluated = .ok inner m' := by
  obtain ⟨head, args, fn, values, evaluated, phrase, operands⟩ := app
  rw [Phrase.of_application] at phrase
  cases phrase
  obtain ⟨_, m1, _, first, later, same⟩ := mapM_cons_eq_ok operands
  cases same
  cases depth with
  | zero => cases first
  | succ depth =>
    rw [eval_succ_eq_run, Phrase.of_functionOf distinct] at first
    cases first
    exact ⟨_, rfl, _, _, Eval.extend_of_bind
      (Frame.bind_eq_ok.mpr ⟨lengths.trans (length_of_mapM later).symm, rfl⟩)⟩

/-- A well-shaped form that binds names raises no fault itself, and neither does the application
    that it stands for: if there is one, it is raised by an initializer or the body. -/
theorem not_raises_of_bindings {b : Form.Bindings}
    (phrase : Phrase.of e = .ok (.letPlain b) ∨ Phrase.of e = .ok (.letRec b)) (c : Fault) :
    ¬ Call.Raises room ⟨depth, e, env, m⟩ c ∧
      ¬ Call.Raises room ⟨depth, Form.application b, env, m⟩ c := by
  have shaped : b.params.Nodup ∧ b.params.length = b.inits.length := by
    rcases phrase with phrase | phrase <;> exact Phrase.shaped_of phrase
  constructor
  · intro raised
    cases raised with
    | refused refused => rcases phrase with phrase | phrase <;> cases phrase.symm.trans refused
    | name other => rcases phrase with phrase | phrase <;> cases phrase.symm.trans other
    | primitive app | closure app | notCallable app =>
      rcases phrase with phrase | phrase <;> cases phrase.symm.trans app.phrase
    | @placeholders _ _ _ _ _ _ b' _ failed =>
      obtain ⟨inner, m', entry⟩ := extend_placeholders env b'.params m
      cases entry.symm.trans failed
    | rebinding run failed =>
      obtain ⟨m', rebound⟩ := run.rebindHead_ok
      cases rebound.symm.trans failed
  · intro raised
    cases raised with
    | refused refused => cases (Phrase.of_application b).symm.trans refused
    | name other => cases (Phrase.of_application b).symm.trans other
    | primitive app function =>
      obtain ⟨_, closure, _⟩ := app.extend_ok shaped.1 shaped.2
      cases closure.symm.trans function
    | closure app function failed =>
      obtain ⟨_, closure, inner, m', entry⟩ := app.extend_ok shaped.1 shaped.2
      cases closure.symm.trans function
      cases entry.symm.trans failed
    | notCallable app _ other =>
      obtain ⟨_, closure, _⟩ := app.extend_ok shaped.1 shaped.2
      exact other _ _ _ _ closure
    | placeholders other => cases (Phrase.of_application b).symm.trans other
    | rebinding run => cases (Phrase.of_application b).symm.trans run.phrase

end

end FrameLisp
