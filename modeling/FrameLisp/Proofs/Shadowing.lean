import FrameLisp.Proofs.WellFormed

/-!
Names bound once. A global environment starts with frames that have no name in common, and a
definition gives a bound name its value where it is bound. It looks for the name before it computes
the value, though, so that a definition of the same name on the way overtakes it: then it puts a
second frame in front of the first (`evaluateAll_shadows`). This is the only way in which a name
comes to be bound twice, and a name that is bound twice stays so (`unshadowed_iff_not_overtaken`).
-/
namespace FrameLisp

/-! ## Nothing is undone -/

/-- Frames bind the names that they bound before, and environments have the frames that they had. -/
structure Accrues (s t : Store) : Prop where
  names : ∀ f, ∀ x ∈ (s.frame f).names, x ∈ (t.frame f).names
  chain : ∀ env, ∀ f ∈ s.chain env, f ∈ t.chain env

namespace Accrues

variable {s t u : Store}

theorem refl (s : Store) : Accrues s s := ⟨fun _ _ => id, fun _ _ => id⟩

theorem trans (first : Accrues s t) (second : Accrues t u) : Accrues s u :=
  ⟨fun f x bound => second.names f x (first.names f x bound),
    fun env f member => second.chain env f (first.chain env f member)⟩

theorem of_persists (kept : Persists s t)
    (chain : ∀ env, s.HasEnv env → ∀ f ∈ s.chain env, f ∈ t.chain env) : Accrues s t := by
  refine ⟨?_, ?_⟩
  · intro f x bound
    rw [kept.names f (Store.hasFrame_of_mem_names bound)]
    exact bound
  · intro env f member
    by_cases there : s.HasEnv env
    · exact chain env there f member
    · rw [Store.chain_of_not_hasEnv there] at member
      cases member

theorem of_fixes (fixes : Fixes s t) : Accrues s t :=
  of_persists fixes.toPersists fun env there f member => by rwa [fixes.chain env there]

theorem of_grows {env : EnvRef} (grows : Grows env s t) : Accrues s t := by
  refine of_persists grows.toPersists ?_
  intro other there f member
  by_cases same : other = env
  · subst same
    obtain ⟨new, grown, _⟩ := grows.pushed there
    rw [grown]
    exact List.mem_append_right new member
  · rwa [grows.others other there same]

theorem modifyFrame {f : FrameRef} {change : Frame → Frame}
    (kept : ∀ fr : Frame, ∀ x ∈ fr.names, x ∈ (change fr).names) :
    Accrues s (s.modifyFrame f change) := by
  refine ⟨?_, fun _ _ => id⟩
  intro g x bound
  rcases Store.frame_modifyFrame s f g change with same | ⟨_, _, changed⟩
  · rwa [same]
  · rw [changed]
    exact kept _ x bound

end Accrues

/-- Whatever state a computation starts from, it undoes nothing there. -/
def Keeps {α : Type} (x : EvalM α) : Prop := ∀ m, Accrues m.store (stateAfter (x m)).store

section
variable {α β : Type}

/-- What comes after a computation undoes nothing of what it has done. -/
theorem accrues_bind {x : EvalM β} {next : β → EvalM α} (later : ∀ b, Keeps (next b))
    (m : Machine) :
    Accrues (stateAfter (x m)).store (stateAfter ((x >>= next) m)).store := by
  cases run : x m with
  | ok b m' =>
    rw [bind_ok run]
    exact later b m'
  | error h m' =>
    have stopped : (x >>= next) m = .error h m' := by simp [bind, EStateM.bind, run]
    rw [stopped]
    exact .refl _

theorem Keeps.bind {x : EvalM β} {next : β → EvalM α} (first : Keeps x)
    (later : ∀ b, Keeps (next b)) : Keeps (x >>= next) :=
  fun m => (first m).trans (accrues_bind later m)

theorem keeps_pure (a : α) : Keeps (pure a : EvalM α) := fun m => .refl m.store

theorem keeps_ofExcept (r : Except Fault α) : Keeps (Eval.ofExcept r) := by
  intro m
  cases r <;> exact .refl m.store

theorem keeps_mapM {f : Value → EvalM Value} (each : ∀ e, Keeps (f e)) (items : List Value) :
    Keeps (items.mapM f) := by
  induction items with
  | nil => exact keeps_pure []
  | cons e rest ih =>
    rw [List.mapM_cons]
    exact (each e).bind fun v => ih.bind fun vs => keeps_pure _

end

theorem keeps_call (room : Nat) (op : Op) (args : List Value) : Keeps (op.call room args) := by
  intro m
  have quiet : Quiet m (stateAfter (op.call room args m)) :=
    Ends.state (Ends.mono (op.call_ends room args m) (fun _ _ => And.left) fun _ _ => And.left)
  rw [quiet.store]
  exact .refl _

theorem keeps_extend (env : EnvRef) (params : List Symbol) (args : List Value) :
    Keeps (Eval.extend env params args) :=
  (keeps_ofExcept _).bind fun fr m => .of_fixes (fixes_extend m.store env fr)

theorem keeps_rebindHead (env : EnvRef) (params : List Symbol) (args : List Value) :
    Keeps (Eval.rebindHead env params args) := by
  intro m
  rw [Eval.rebindHead_eq]
  refine (keeps_ofExcept _).bind (fun head m' => ?_) m
  exact .modifyFrame fun fr x bound => (Frame.mem_names_insertAll _ fr x).mpr (.inr bound)

section
variable {room : Nat} {ev : Evaluator} {env : EnvRef}

theorem keeps_apply (nested : ∀ e env, Keeps (ev e env)) (fn : Value) (args : List Value) :
    Keeps (Eval.apply room ev fn args) := by
  cases fn with
  | primitive stamp op => exact keeps_call room op args
  | closure stamp params body captured =>
    exact (keeps_extend captured params args).bind fun inner => nested body inner
  | _ => exact fun m => .refl m.store

theorem keeps_run (nested : ∀ e env, Keeps (ev e env)) (env : EnvRef) (p : Phrase) :
    Keeps (p.run room ev env) := by
  cases p with
  | number x => exact keeps_pure _
  | name x => exact fun m => keeps_ofExcept (m.store.lookup env x) m
  | application head args =>
    refine (nested head env).bind fun fn => ?_
    exact (keeps_mapM (fun e => nested e env) args).bind fun values => keeps_apply nested fn values
  | lambda params body => exact fun m => .refl m.store
  | letPlain b => exact nested _ env
  | letRec b =>
    refine (keeps_extend env _ _).bind fun inner => ?_
    refine (keeps_mapM (fun e => nested e inner) b.inits).bind fun values => ?_
    refine (keeps_rebindHead inner b.params values).bind fun _ => ?_
    exact Keeps.bind (fun m => .refl m.store) fun _ => nested _ inner
  | branch condition consequent alternative =>
    refine (nested condition env).bind fun v => ?_
    cases v.isTrue with
    | true => exact nested consequent env
    | false => exact nested alternative env
  | define x expr =>
    refine Keeps.bind (fun m => .refl m.store) fun before => (nested expr env).bind fun v m => ?_
    cases before.store.find? env x with
    | some f => exact .modifyFrame fun fr y bound => Frame.mem_names_insert.mpr (.inr bound)
    | none => exact .of_grows (grows_push m.store env x v)

end

theorem keeps_eval (room depth : Nat) (e : Value) (env : EnvRef) :
    Keeps (eval room depth e env) := by
  induction depth generalizing e env with
  | zero => exact fun m => .refl m.store
  | succ depth ih =>
    rw [eval_succ_eq_run]
    exact (keeps_ofExcept _).bind fun p => keeps_run ih env p

/-! ## What a call does stays done -/

/-- The state that a call leaves. -/
def Call.after (room : Nat) (c : Call) : Machine :=
  stateAfter (eval room c.depth c.expr c.env c.machine)

section
variable {room depth : Nat} {e next : Value} {env : EnvRef} {m m' : Machine}

theorem Call.after_succ {p : Phrase} (phrase : Phrase.of e = .ok p) :
    Call.after room ⟨depth + 1, e, env, m⟩ = stateAfter (p.run room (eval room depth) env m) := by
  unfold Call.after
  rw [eval_succ_eq_run, phrase]
  rfl

theorem InTurn.accrues {items : List Value}
    (turn : InTurn (eval room depth) env items m next m') :
    Accrues (stateAfter (eval room depth next env m')).store
      (stateAfter (items.mapM (eval room depth · env) m)).store := by
  have each := fun e => keeps_eval room depth e env
  induction turn with
  | here =>
    rw [List.mapM_cons]
    exact accrues_bind (fun v => (keeps_mapM each _).bind fun vs => keeps_pure _) _
  | later done _ ih =>
    rw [List.mapM_cons, bind_ok done]
    exact ih.trans (accrues_bind (fun vs => keeps_pure _) _)

/-- A call undoes nothing of what the calls that it makes have done. -/
theorem Call.Makes.accrues {c d : Call} (made : Call.Makes room c d) :
    Accrues (d.after room).store (c.after room).store := by
  cases made with
  | @operand depth e head next args env m m' phrase turn =>
    have each := fun e => keeps_eval room depth e env
    have applied (fn : Value) (values : List Value) :
        Keeps (Eval.apply room (eval room depth) fn values) :=
      keeps_apply (keeps_eval room depth) fn values
    rw [Call.after_succ phrase]
    cases turn with
    | here => exact accrues_bind (fun fn => (keeps_mapM each args).bind fun vs => applied fn vs) m
    | later done turn =>
      simp only [Phrase.run]
      rw [bind_ok done]
      exact turn.accrues.trans (accrues_bind (fun vs => applied _ vs) _)
  | @body depth e env m call =>
    obtain ⟨fn, m1, values, headDone, argsDone, same⟩ := mapM_cons_eq_ok call.operands
    obtain ⟨rfl, rfl⟩ := List.cons.inj same
    have applied : Eval.apply room (eval room depth)
        (.closure call.stamp call.params call.body call.captured) call.values call.evaluated =
          eval room depth call.body call.inner call.entered := bind_ok call.entry
    rw [Call.after_succ call.phrase]
    simp only [Phrase.run]
    rw [bind_ok headDone, bind_ok argsDone, applied]
    exact .refl _
  | letPlain phrase =>
    rw [Call.after_succ phrase]
    exact .refl _
  | @initializer depth e next env m m' run turn =>
    rw [Call.after_succ run.phrase]
    simp only [Phrase.run]
    rw [bind_ok run.entry]
    refine turn.accrues.trans (accrues_bind (fun values => ?_) _)
    refine (keeps_rebindHead run.inner run.bindings.params values).bind fun _ => ?_
    exact Keeps.bind (fun m => .refl m.store) fun _ => keeps_eval room depth _ _
  | letRec run rebound =>
    rw [Call.after_succ run.phrase]
    simp only [Phrase.run]
    rw [bind_ok run.entry, bind_ok run.initializers, bind_ok rebound]
    exact .refl _
  | @condition depth e condition consequent alternative env m phrase =>
    rw [Call.after_succ phrase]
    refine accrues_bind (fun v => ?_) m
    cases v.isTrue with
    | true => exact keeps_eval room depth consequent env
    | false => exact keeps_eval room depth alternative env
  | @branch depth e condition consequent alternative v env m m' phrase done =>
    rw [Call.after_succ phrase]
    simp only [Phrase.run]
    rw [bind_ok done]
    cases v.isTrue <;> exact .refl _
  | @define depth e expr x env m phrase =>
    rw [Call.after_succ phrase]
    refine accrues_bind (x := eval room depth expr env) (fun v m' => ?_) m
    cases m.store.find? env x with
    | some f => exact .modifyFrame fun fr y bound => Frame.mem_names_insert.mpr (.inr bound)
    | none => exact .of_grows (grows_push m'.store env x v)

theorem Call.Visits.accrues {root c : Call} (visited : Call.Visits room root c) :
    Accrues (c.after room).store (root.after room).store := by
  induction visited with
  | refl => exact .refl _
  | tail _ made ih => exact made.accrues.trans ih

end

/-! ## Names bound once -/

/-- No name is bound in two frames of an environment. -/
def Store.Unshadowed (s : Store) (env : EnvRef) : Prop :=
  ∀ x, ∀ f ∈ s.chain env, ∀ g ∈ s.chain env,
    x ∈ (s.frame f).names → x ∈ (s.frame g).names → f = g

/-- An environment is there, and so are its frames. -/
structure Store.Intact (s : Store) (env : EnvRef) : Prop where
  there : s.HasEnv env
  frames : ∀ f ∈ s.chain env, s.HasFrame f

section
variable {s t : Store} {env other : EnvRef} {x : Symbol} {v : Value}

theorem Store.Unshadowed.of_same (single : s.Unshadowed env) (chain : t.chain env = s.chain env)
    (names : ∀ f ∈ s.chain env, (t.frame f).names = (s.frame f).names) : t.Unshadowed env := by
  intro x f memberF g memberG boundF boundG
  rw [chain] at memberF memberG
  rw [names f memberF] at boundF
  rw [names g memberG] at boundG
  exact single x f memberF g memberG boundF boundG

/-- A name that is bound twice stays so. -/
theorem Accrues.unshadowed (accrues : Accrues s t) (single : t.Unshadowed env) :
    s.Unshadowed env := by
  intro x f memberF g memberG boundF boundG
  exact single x f (accrues.chain env f memberF) g (accrues.chain env g memberG)
    (accrues.names f x boundF) (accrues.names g x boundG)

theorem Grows.intact (grows : Grows other s t) (intact : s.Intact env) : t.Intact env := by
  refine ⟨grows.hasEnv intact.there, ?_⟩
  intro f member
  by_cases same : env = other
  · subst same
    obtain ⟨new, grown, each⟩ := grows.pushed intact.there
    rw [grown, List.mem_append] at member
    rcases member with member | member
    · exact (each f member).2.1
    · exact grows.hasFrame (intact.frames f member)
  · rw [grows.others env intact.there same] at member
    exact grows.hasFrame (intact.frames f member)

theorem Fixes.intact (fixes : Fixes s t) (intact : s.Intact env) : t.Intact env :=
  (fixes.grows : Grows env s t).intact intact

theorem Fixes.unshadowed (fixes : Fixes s t) (intact : s.Intact env)
    (single : s.Unshadowed env) : t.Unshadowed env :=
  single.of_same (fixes.chain env intact.there) fun f member =>
    fixes.names f (intact.frames f member)

theorem unshadowed_push_other (apart : env ≠ other) (intact : s.Intact env)
    (single : s.Unshadowed env) : (s.push other (Frame.ofPairs [(x, v)])).Unshadowed env := by
  have grows := grows_push s other x v
  exact single.of_same (grows.others env intact.there apart) fun f member =>
    grows.names f (intact.frames f member)

/-- A new frame in front leaves every name bound once exactly if its own name was not bound. -/
theorem unshadowed_push_iff (intact : s.Intact env) (single : s.Unshadowed env) :
    (s.push env (Frame.ofPairs [(x, v)])).Unshadowed env ↔ s.find? env x = none := by
  have new : ((s.push env (Frame.ofPairs [(x, v)])).frame s.nextFrame).names = [x] := by
    rw [Store.frame_push, if_pos rfl, Frame.names_ofPairs_singleton]
  have old (f : FrameRef) (member : f ∈ s.chain env) :
      (s.push env (Frame.ofPairs [(x, v)])).frame f = s.frame f := by
    rw [Store.frame_push, if_neg (Store.ne_nextFrame (intact.frames f member))]
  rw [Store.find?_eq_none]
  unfold Store.Unshadowed
  rw [Store.chain_push_self intact.there]
  constructor
  · intro single' f member bound
    have same := single' x s.nextFrame List.mem_cons_self f (List.mem_cons_of_mem _ member)
      (by simp [new]) (by rwa [old f member])
    exact Store.ne_nextFrame (intact.frames f member) same.symm
  · intro absent y f memberF g memberG boundF boundG
    rcases List.mem_cons.mp memberF with rfl | memberF
    · rcases List.mem_cons.mp memberG with rfl | memberG
      · rfl
      · rw [new, List.mem_singleton] at boundF
        rw [old g memberG, boundF] at boundG
        exact absurd boundG (absent g memberG)
    · rw [old f memberF] at boundF
      rcases List.mem_cons.mp memberG with rfl | memberG
      · rw [new, List.mem_singleton] at boundG
        rw [boundG] at boundF
        exact absurd boundF (absent f memberF)
      · rw [old g memberG] at boundG
        exact single y f memberF g memberG boundF boundG

end

/-! ## Overtaken definitions -/

section
variable {room depth : Nat} {e : Value} {env : EnvRef} {m : Machine}

/-- The name of a definition has become bound in its environment while the value was computed. -/
def DefineRun.Overtaken (run : DefineRun room depth e env m) : Prop :=
  m.store.find? env run.name = none ∧ run.computed.store.find? env run.name ≠ none

/-- A definition in the environment is overtaken during a call. -/
def Call.Overtakes (room : Nat) (root : Call) (env : EnvRef) : Prop :=
  ∃ depth e m, ∃ run : DefineRun room depth e env m,
    Call.Visits room root ⟨depth + 1, e, env, m⟩ ∧ run.Overtaken

theorem DefineRun.after (run : DefineRun room depth e env m)
    (absent : m.store.find? env run.name = none) :
    (Call.after room ⟨depth + 1, e, env, m⟩).store =
      run.computed.store.push env (Frame.ofPairs [(run.name, run.value)]) := by
  have opened : (Phrase.define run.name run.expr).run room (eval room depth) env m =
      (eval room depth run.expr env >>= fun v => do
        Eval.report (.defined run.name)
        modify (·.mapStore (·.push env (Frame.ofPairs [(run.name, v)])))
        pure .unit) m := by
    show (eval room depth run.expr env >>= _) m = _
    rw [absent]
  rw [Call.after_succ run.phrase, opened, bind_ok run.done]
  rfl

/-- `letrec` binds its names again in a frame that belongs to no environment of old. -/
theorem unshadowed_of_letRec {g : EnvRef} {m' : Machine} (run : LetRecRun room depth e env m)
    (intact : m.store.Intact g) (grows : Grows run.inner run.opened.store run.initialized.store)
    (single : run.initialized.store.Unshadowed g)
    (rebound : Eval.rebindHead run.inner run.bindings.params run.values run.initialized =
      .ok () m') : m'.store.Unshadowed g := by
  obtain ⟨fixes, fresh, _⟩ := fixes_of_extend run.entry
  have chain := (fixes.trans_grows fresh grows).chain g intact.there
  obtain ⟨head, rest, _, headed, rfl⟩ := Eval.rebindHead_eq_ok rebound
  refine single.of_same rfl fun f member => ?_
  have apart : f ≠ head := by
    rintro rfl
    exact fresh_head run.entry grows headed (intact.frames f (chain ▸ member))
  exact congrArg Frame.names (Store.frame_modifyFrame_other apart _)

end

/-- An environment has no name bound twice unless a definition in it has been overtaken. -/
def naming (room : Nat) (root : Call) (g : EnvRef) : Discipline room where
  Inv m := m.store.Intact g ∧ (m.store.Unshadowed g ∨ root.Overtakes room g)
  Part _ _ := True
  Moves env m m' := Grows env m.store m'.store
  Admits c := Call.Visits room root c ∧ c.machine.store.Intact g
  Stops _ := True
  onHalt := True
  moves_refl := (shape room).moves_refl
  moves_trans := (shape room).moves_trans
  part_moves _ _ := trivial
  part_made _ := trivial
  part_unit := trivial
  inv_quiet quiet inv := quiet.store ▸ inv
  moves_quiet := (shape room).moves_quiet
  stops_bound _ := trivial
  unbound _ _ _ := trivial
  lookup _ _ _ _ _ _ _ := trivial
  lambda _ _ _ := trivial
  operand admits phrase turn grows := ⟨admits.1.tail (.operand phrase turn), grows.intact admits.2⟩
  body call admits grows _ :=
    ⟨admits.1.tail (.body call), (fixes_of_extend call.entry).1.intact (grows.intact admits.2)⟩
  enter inv _ _ entry := by
    obtain ⟨fixes, _⟩ := fixes_of_extend entry
    exact ⟨fixes.intact inv.1, inv.2.imp_left (fixes.unshadowed inv.1)⟩
  leave := (shape room).leave
  letPlain admits phrase := ⟨admits.1.tail (.letPlain phrase), admits.2⟩
  condition admits phrase := ⟨admits.1.tail (.condition phrase), admits.2⟩
  branch admits phrase done grows := ⟨admits.1.tail (.branch phrase done), grows.intact admits.2⟩
  define admits phrase := ⟨admits.1.tail (.define phrase), admits.2⟩
  assign run _ _ found _ grows inv _ := by
    obtain ⟨_, bound⟩ := Store.find?_eq_some found
    have bound := grows.names _ (Store.hasFrame_of_mem_names bound) ▸ bound
    have fixes := fixes_assign (v := run.value) bound
    exact ⟨⟨fixes.intact inv.1, inv.2.imp_left (fixes.unshadowed inv.1)⟩, fixes.grows⟩
  push {_ _ env _ m'} run admits absent quiet _ inv _ := by
    have grows := grows_push m'.store env run.name run.value
    refine ⟨⟨grows.intact inv.1, ?_⟩, grows⟩
    rcases inv.2 with single | overtaken
    · by_cases own : env = g
      · subst own
        by_cases bound : m'.store.find? env run.name = none
        · exact .inl ((unshadowed_push_iff inv.1 single).mpr bound)
        · rw [quiet.store] at bound
          exact .inr ⟨_, _, _, run, admits.1, absent, bound⟩
      · exact .inl (unshadowed_push_other (Ne.symm own) inv.1 single)
    · exact .inr overtaken
  opening run _ inv := by
    obtain ⟨fixes, _⟩ := fixes_of_extend run.entry
    exact ⟨fixes.intact inv.1, inv.2.imp_left (fixes.unshadowed inv.1)⟩
  initializer run admits turn grows :=
    ⟨admits.1.tail (.initializer run turn),
      grows.intact ((fixes_of_extend run.entry).1.intact admits.2)⟩
  abandon := (shape room).abandon
  rebind run admits grows inv _ rebound :=
    ⟨(fixes_of_letRec run grows rebound).intact admits.2,
      inv.2.imp_left fun single => unshadowed_of_letRec run admits.2 grows single rebound⟩
  letRec run admits grows rebound :=
    ⟨admits.1.tail (.letRec run rebound), (fixes_of_letRec run grows rebound).intact admits.2⟩
  close run _ grows _ rebound last :=
    (shape room).close run trivial grows (fun _ _ _ _ => trivial) rebound last

section
variable {room : Nat} {g : EnvRef}

theorem Call.grows_after (room : Nat) (c : Call) :
    Grows c.env c.machine.store (c.after room).store := by
  have meets := (shape room).sound c.depth c.expr c.env c.machine trivial trivial
  exact ((shape room).state trivial meets).2

/-- A call in which a definition is overtaken leaves a name bound twice. -/
theorem not_unshadowed_of_overtakes {root : Call} (intact : root.machine.store.Intact g)
    (overtakes : root.Overtakes room g) : ¬ (root.after room).store.Unshadowed g := by
  obtain ⟨depth, e, m, run, visited, absent, bound⟩ := overtakes
  intro single
  have before : m.store.Intact g := by
    let D := naming room root g
    have inv : D.Inv root.machine := ⟨intact, .inr ⟨depth, e, m, run, visited, absent, bound⟩⟩
    exact ((D.visits visited inv ⟨.refl, intact⟩).1).1
  have computed : run.computed.store.Intact g := by
    have grows := Call.grows_after room ⟨depth, run.expr, g, m⟩
    rw [Call.after, run.done] at grows
    exact grows.intact before
  have pushed := visited.accrues.unshadowed single
  rw [run.after absent] at pushed
  have single' := (Accrues.of_grows (grows_push run.computed.store g run.name run.value)).unshadowed
    pushed
  exact bound ((unshadowed_push_iff computed single').mp pushed)

/-- A call leaves every name bound once exactly if no definition is overtaken during the call. -/
theorem Call.unshadowed_after_iff (root : Call) (intact : root.machine.store.Intact g)
    (single : root.machine.store.Unshadowed g) :
    (root.after room).store.Unshadowed g ↔ ¬ root.Overtakes room g := by
  constructor
  · intro single' overtakes
    exact not_unshadowed_of_overtakes intact overtakes single'
  · intro never
    let D := naming room root g
    have meets := D.sound root.depth root.expr root.env root.machine ⟨intact, .inl single⟩
      ⟨.refl, intact⟩
    exact (D.state trivial meets).1.2.resolve_right never

end

/-! ## Runs of evaluations -/

/-- The state after evaluating expressions one after the other in an environment. -/
def evaluateAll (env : EnvRef) (m : Machine) : List (Policy × Value) → Machine
  | [] => m
  | (p, e) :: rest => evaluateAll env (stateAfter (evaluate p e env m)) rest

/-- A definition in the environment itself is overtaken in the course of a run. -/
def RunOvertakes (env : EnvRef) (m : Machine) : List (Policy × Value) → Prop
  | [] => False
  | (p, e) :: rest =>
    (∃ limit, p.recursionLimit = .ok limit ∧
      Call.Overtakes (p.stack.levels limit) ⟨p.stack.calls limit, e, env, m⟩ env) ∨
    RunOvertakes env (stateAfter (evaluate p e env m)) rest

section
variable {g : EnvRef} {m : Machine}

theorem accrues_evaluate (p : Policy) (e : Value) (env : EnvRef) (m : Machine) :
    Accrues m.store (stateAfter (evaluate p e env m)).store := by
  rcases evaluate_store p e env m with same | ⟨levels, calls, same⟩
  · rw [same]
    exact .refl _
  · rw [same]
    exact keeps_eval levels calls e env m

theorem accrues_evaluateAll (calls : List (Policy × Value)) :
    Accrues m.store (evaluateAll g m calls).store := by
  induction calls generalizing m with
  | nil => exact .refl _
  | cons call rest ih =>
    obtain ⟨p, e⟩ := call
    exact (accrues_evaluate p e g m).trans ih

theorem unshadowed_evaluate_iff (intact : m.store.Intact g) (single : m.store.Unshadowed g)
    (p : Policy) (e : Value) :
    (stateAfter (evaluate p e g m)).store.Intact g ∧
      ((stateAfter (evaluate p e g m)).store.Unshadowed g ↔
        ¬ ∃ limit, p.recursionLimit = .ok limit ∧
          Call.Overtakes (p.stack.levels limit) ⟨p.stack.calls limit, e, g, m⟩ g) := by
  cases inForce : p.recursionLimit with
  | error cause =>
    rw [evaluate_of_refused inForce]
    exact ⟨intact, iff_of_true single (by simp)⟩
  | ok limit =>
    rw [evaluate_store_of_limit inForce]
    simp only [Except.ok.injEq, exists_eq_left']
    let root : Call := ⟨p.stack.calls limit, e, g, m⟩
    have grows := root.grows_after (p.stack.levels limit)
    exact ⟨grows.intact intact, root.unshadowed_after_iff intact single⟩

theorem unshadowed_evaluateAll_iff (intact : m.store.Intact g) (single : m.store.Unshadowed g)
    (calls : List (Policy × Value)) :
    (evaluateAll g m calls).store.Unshadowed g ↔ ¬ RunOvertakes g m calls := by
  induction calls generalizing m with
  | nil => exact iff_of_true single id
  | cons call rest ih =>
    obtain ⟨p, e⟩ := call
    obtain ⟨intact', first⟩ := unshadowed_evaluate_iff intact single p e
    rw [RunOvertakes, not_or, evaluateAll, ← first]
    constructor
    · intro single'
      have now := accrues_evaluateAll rest |>.unshadowed single'
      exact ⟨now, (ih intact' now).mp single'⟩
    · rintro ⟨now, later⟩
      exact (ih intact' now).mpr later

end

theorem intact_newGlobal (m : Machine) : m.newGlobal.2.store.Intact m.newGlobal.1 := by
  refine ⟨hasEnv_newGlobal m, ?_⟩
  intro f member
  rw [newGlobal_store, newGlobal_fst] at member
  rw [newGlobal_store, Store.HasFrame, Store.frames_size_newEnvOf]
  exact (Store.mem_chain_newEnvOf.mp member).2

/-- The frames of a global environment have no name in common. -/
theorem unshadowed_newGlobal (m : Machine) : m.newGlobal.2.store.Unshadowed m.newGlobal.1 := by
  have names : ∀ i < 3, ∀ j < 3, ∀ x ∈ ((Builtin.frames 0).map Frame.names)[i]?.getD [],
      x ∈ ((Builtin.frames 0).map Frame.names)[j]?.getD [] → i = j := by decide
  have frame (i : Nat) : (m.newGlobal.2.store.frame ⟨m.store.frames.size + i⟩).names =
      ((Builtin.frames 0).map Frame.names)[i]?.getD [] := by
    have same : (Builtin.frames 0).map Frame.names =
      (Builtin.frames m.stamps).map Frame.names := rfl
    rw [same, List.getElem?_map, newGlobal_store, Store.frame_newEnvOf_at]
    cases (Builtin.frames m.stamps)[i]? <;> rfl
  have place {f : FrameRef} (member : f ∈ m.newGlobal.2.store.chain m.newGlobal.1) :
      ∃ i < 3, f = ⟨m.store.frames.size + i⟩ := by
    rw [newGlobal_store, newGlobal_fst] at member
    obtain ⟨least, bound⟩ := Store.mem_chain_newEnvOf.mp member
    have count : (Builtin.frames m.stamps).length = 3 := rfl
    refine ⟨f.index - m.store.frames.size, by omega, ?_⟩
    cases f
    simp only [FrameRef.mk.injEq]
    simp only at least
    omega
  intro x f memberF g memberG boundF boundG
  obtain ⟨i, small, rfl⟩ := place memberF
  obtain ⟨j, small', rfl⟩ := place memberG
  rw [frame] at boundF boundG
  rw [names i small j small' x boundF boundG]

/-- In a run of evaluations in a new global environment, no name is ever bound in two of its frames
    exactly if no definition in the environment is overtaken. -/
theorem unshadowed_iff_not_overtaken (m : Machine) (calls : List (Policy × Value)) :
    (evaluateAll m.newGlobal.1 m.newGlobal.2 calls).store.Unshadowed m.newGlobal.1 ↔
      ¬ RunOvertakes m.newGlobal.1 m.newGlobal.2 calls :=
  unshadowed_evaluateAll_iff (intact_newGlobal m) (unshadowed_newGlobal m) calls

/-- `(define x (define x 1))`. -/
def overtaken : Value :=
  .list ⟨1⟩ [.symbol ⟨"define"⟩, .symbol ⟨"x"⟩,
    .list ⟨2⟩ [.symbol ⟨"define"⟩, .symbol ⟨"x"⟩, .number (.int 1)]]

/-- A single definition can leave its name bound in two frames of a global environment. -/
theorem evaluateAll_shadows :
    ¬ ∀ (m : Machine) (calls : List (Policy × Value)),
      (evaluateAll m.newGlobal.1 m.newGlobal.2 calls).store.Unshadowed m.newGlobal.1 := by
  intro always
  let s := (evaluateAll Machine.empty.newGlobal.1 Machine.empty.newGlobal.2
    [(⟨none, .warning, .halved⟩, overtaken)]).store
  have chain : s.chain Machine.empty.newGlobal.1 = [⟨4⟩, ⟨3⟩, ⟨0⟩, ⟨1⟩, ⟨2⟩] := rfl
  have first : (s.frame ⟨4⟩).names = [⟨"x"⟩] := rfl
  have second : (s.frame ⟨3⟩).names = [⟨"x"⟩] := rfl
  have single : s.Unshadowed Machine.empty.newGlobal.1 := always .empty _
  have same : (⟨4⟩ : FrameRef) = ⟨3⟩ := by
    refine single ⟨"x"⟩ ⟨4⟩ ?_ ⟨3⟩ ?_ ?_ ?_
    · rw [chain]
      decide
    · rw [chain]
      decide
    · rw [first]
      decide
    · rw [second]
      decide
  cases same

end FrameLisp
