import FrameLisp.Proofs.Calls
import FrameLisp.Proofs.Primitive

/-!
Disciplines: what evaluation keeps, whatever it is given. A discipline says what holds of the state,
of values and of the changes that a call may make, and shows for each kind of phrase that one call
keeps this up if the calls nested in it do. `Discipline.sound` is the induction over the depth,
made once for all disciplines.
-/
namespace FrameLisp

/-- What a discipline speaks about. -/
structure Concern where
  /-- What holds of the state between calls. -/
  Inv : Machine → Prop
  /-- What is asked of everything that occurs in a value. -/
  Part : Machine → Value → Prop
  /-- How the state may change while an expression is evaluated in an environment. -/
  Moves : EnvRef → Machine → Machine → Prop
  /-- The calls that are looked at. -/
  Admits : Call → Prop
  /-- Why evaluation may stop. -/
  Stops : Halt → Prop
  /-- Whether the state is looked at when evaluation has stopped. -/
  onHalt : Prop

/-- Everything that occurs in a value is as it should be. -/
def Concern.Good (C : Concern) (m : Machine) (v : Value) : Prop :=
  ∀ part : Value, part.OccursIn v → C.Part m part

/-- What evaluation keeps, with a law for each way in which a call can change the state. -/
structure Discipline (room : Nat) extends Concern where
  moves_refl : ∀ env m, Moves env m m
  moves_trans : ∀ {env m m1 m2}, Moves env m m1 → Moves env m1 m2 → Moves env m m2
  part_moves : ∀ {env m m' v}, Moves env m m' → Part m v → Part m' v
  part_made : ∀ {m v}, v.isMade = true → Part m v
  part_unit : ∀ {m}, Part m .unit
  inv_quiet : ∀ {m m'}, Quiet m m' → Inv m → Inv m'
  moves_quiet : ∀ {env m m'}, Quiet m m' → Moves env m m'
  stops_bound : ∀ {h}, Halt.Bound h → Stops h
  /-- A variable that is not bound may be refused. -/
  unbound : ∀ {depth e env m x}, Admits ⟨depth + 1, e, env, m⟩ →
    Phrase.of e = .ok (.name x) → m.store.binding? env x = none → Stops (.fault (.unbound x))
  /-- A variable has a good value. -/
  lookup : ∀ {depth e env m x v}, Inv m → Admits ⟨depth + 1, e, env, m⟩ →
    Phrase.of e = .ok (.name x) → m.store.binding? env x = some v → v ≠ .unassigned →
    toConcern.Good m v
  lambda : ∀ {depth e env m params body stamp}, Inv m → Admits ⟨depth + 1, e, env, m⟩ →
    Phrase.of e = .ok (.lambda params body) → Part m (.closure stamp params body env)
  operand : ∀ {depth e env m head args next m'}, Admits ⟨depth + 1, e, env, m⟩ →
    Phrase.of e = .ok (.application head args) →
    InTurn (eval room depth) env (head :: args) m next m' → Moves env m m' →
    Admits ⟨depth, next, env, m'⟩
  /-- The body of a closure is looked at where the closure is called. -/
  body : ∀ {depth e env m} (call : ClosureCall room depth e env m),
    Admits ⟨depth + 1, e, env, m⟩ → Moves env m call.evaluated →
    Part call.evaluated (.closure call.stamp call.params call.body call.captured) →
    Admits ⟨depth, call.body, call.inner, call.entered⟩
  /-- The parameters of a closure can be bound. -/
  enter : ∀ {m stamp params body captured args inner m'}, Inv m →
    Part m (.closure stamp params body captured) → (∀ a ∈ args, toConcern.Good m a) →
    Eval.extend captured params args m = .ok inner m' → Inv m'
  /-- What is done in an environment made for a call is a change that its caller may make. -/
  leave : ∀ {env m params captured args inner m' m''}, (∀ a ∈ args, toConcern.Good m a) →
    Eval.extend captured params args m = .ok inner m' → Moves inner m' m'' → Moves env m m''
  letPlain : ∀ {depth e env m b}, Admits ⟨depth + 1, e, env, m⟩ →
    Phrase.of e = .ok (.letPlain b) → Admits ⟨depth, Form.application b, env, m⟩
  condition : ∀ {depth e env m condition consequent alternative},
    Admits ⟨depth + 1, e, env, m⟩ → Phrase.of e = .ok (.branch condition consequent alternative) →
    Admits ⟨depth, condition, env, m⟩
  branch : ∀ {depth e env m condition consequent alternative v m'},
    Admits ⟨depth + 1, e, env, m⟩ → Phrase.of e = .ok (.branch condition consequent alternative) →
    eval room depth condition env m = .ok v m' → Moves env m m' →
    Admits ⟨depth, if v.isTrue then consequent else alternative, env, m'⟩
  define : ∀ {depth e env m x expr}, Admits ⟨depth + 1, e, env, m⟩ →
    Phrase.of e = .ok (.define x expr) → Admits ⟨depth, expr, env, m⟩
  /-- A name can be given a value in the frame that bound it before the value was computed. -/
  assign : ∀ {depth e env m m' f} (run : DefineRun room depth e env m),
    Admits ⟨depth + 1, e, env, m⟩ → Inv m → m.store.find? env run.name = some f →
    Quiet run.computed m' → Moves env m m' → Inv m' → toConcern.Good m' run.value →
    Inv (m'.mapStore (·.assign f run.name run.value)) ∧
      Moves env m' (m'.mapStore (·.assign f run.name run.value))
  /-- A name that was not bound can be given a value in a new frame. -/
  push : ∀ {depth e env m m'} (run : DefineRun room depth e env m),
    Admits ⟨depth + 1, e, env, m⟩ → m.store.find? env run.name = none →
    Quiet run.computed m' → Moves env m m' → Inv m' → toConcern.Good m' run.value →
    Inv (m'.mapStore (·.push env (Frame.ofPairs [(run.name, run.value)]))) ∧
      Moves env m' (m'.mapStore (·.push env (Frame.ofPairs [(run.name, run.value)])))
  /-- Placeholders can be bound. -/
  opening : ∀ {depth e env m} (run : LetRecOpening e env m), Admits ⟨depth + 1, e, env, m⟩ →
    Inv m → Inv run.opened
  initializer : ∀ {depth e env m next m'} (run : LetRecOpening e env m),
    Admits ⟨depth + 1, e, env, m⟩ →
    InTurn (eval room depth) run.inner run.bindings.inits run.opened next m' →
    Moves run.inner run.opened m' → Admits ⟨depth, next, run.inner, m'⟩
  /-- Initializers may be abandoned, if that is looked at. -/
  abandon : ∀ {e env m m'} (run : LetRecOpening e env m), onHalt →
    Moves run.inner run.opened m' → Moves env m m'
  /-- The placeholders can be replaced by good values. -/
  rebind : ∀ {depth e env m m'} (run : LetRecRun room depth e env m),
    Admits ⟨depth + 1, e, env, m⟩ → Moves run.inner run.opened run.initialized →
    Inv run.initialized → (∀ v ∈ run.values, toConcern.Good run.initialized v) →
    Eval.rebindHead run.inner run.bindings.params run.values run.initialized = .ok () m' → Inv m'
  letRec : ∀ {depth e env m m'} (run : LetRecRun room depth e env m),
    Admits ⟨depth + 1, e, env, m⟩ → Moves run.inner run.opened run.initialized →
    Eval.rebindHead run.inner run.bindings.params run.values run.initialized = .ok () m' →
    Admits ⟨depth, Form.application run.bindings, run.inner,
      m'.addRecord (.letrecBound run.bindings.params)⟩
  /-- What a whole `letrec` does is a change that its caller may make. -/
  close : ∀ {depth e env m m' m''} (run : LetRecRun room depth e env m),
    Admits ⟨depth + 1, e, env, m⟩ → Moves run.inner run.opened run.initialized →
    (∀ v ∈ run.values, toConcern.Good run.initialized v) →
    Eval.rebindHead run.inner run.bindings.params run.values run.initialized = .ok () m' →
    Moves run.inner (m'.addRecord (.letrecBound run.bindings.params)) m'' → Moves env m m''

namespace Discipline

variable {room : Nat} (D : Discipline room) {env : EnvRef} {m m1 m' : Machine} {depth : Nat}

/-- What holds when evaluation has stopped. -/
def Halts (env : EnvRef) (m : Machine) (h : Halt) (m' : Machine) : Prop :=
  D.Stops h ∧ (D.onHalt → D.Inv m' ∧ D.Moves env m m')

/-- What holds of an outcome: of its value and state, or of its cause. -/
def Meets (env : EnvRef) (m : Machine) : EStateM.Result Halt Machine Value → Prop :=
  Ends (fun v m' => D.Inv m' ∧ D.Moves env m m' ∧ D.Good m' v) (D.Halts env m)

/-- Calls of a depth keep the discipline. -/
def Sound (depth : Nat) : Prop :=
  ∀ e env m, D.Inv m → D.Admits ⟨depth, e, env, m⟩ → D.Meets env m (eval room depth e env m)

theorem good_moves {v : Value} (moves : D.Moves env m m') (good : D.Good m v) : D.Good m' v :=
  fun part inside => D.part_moves moves (good part inside)

theorem good_madeFrom {args : List Value} {v : Value} (made : Value.MadeFrom args v)
    (good : ∀ a ∈ args, D.Good m a) : D.Good m v := by
  intro part inside
  rcases made part inside with made | ⟨a, member, inside⟩
  · exact D.part_made made
  · exact good a member part inside

theorem halts_trans {h : Halt} (moves : D.Moves env m m1) (halts : D.Halts env m1 h m') :
    D.Halts env m h m' := by
  refine ⟨halts.1, fun looked => ?_⟩
  obtain ⟨inv, later⟩ := halts.2 looked
  exact ⟨inv, D.moves_trans moves later⟩

theorem meets_trans {r : EStateM.Result Halt Machine Value} (moves : D.Moves env m m1)
    (meets : D.Meets env m1 r) : D.Meets env m r := by
  refine Ends.mono meets ?_ ?_
  · rintro v m' ⟨inv, later, good⟩
    exact ⟨inv, D.moves_trans moves later, good⟩
  · intro h m' halts
    exact D.halts_trans moves halts

theorem halts_fault {c : Fault} (inv : D.Inv m) (bound : ∀ x, c ≠ .unbound x) :
    D.Halts env m (.fault c) m :=
  ⟨D.stops_bound (Halt.bound_fault bound), fun _ => ⟨inv, D.moves_refl env m⟩⟩

/-- What holds of the state however a call ends. -/
theorem state {r : EStateM.Result Halt Machine Value} (looked : D.onHalt)
    (meets : D.Meets env m r) : D.Inv (stateAfter r) ∧ D.Moves env m (stateAfter r) := by
  refine Ends.state (P := fun m' => D.Inv m' ∧ D.Moves env m m') (Ends.mono meets ?_ ?_)
  · rintro v m' ⟨inv, moves, -⟩
    exact ⟨inv, moves⟩
  · rintro h m' ⟨-, state⟩
    exact state looked

/-! ## The phrases -/

theorem sound_items (sound : D.Sound depth) (items : List Value) (m : Machine) (inv : D.Inv m)
    (admits : ∀ next m', InTurn (eval room depth) env items m next m' → D.Moves env m m' →
      D.Admits ⟨depth, next, env, m'⟩) :
    Ends (fun vs m' => D.Inv m' ∧ D.Moves env m m' ∧ ∀ v ∈ vs, D.Good m' v) (D.Halts env m)
      (items.mapM (eval room depth · env) m) := by
  induction items generalizing m with
  | nil => exact ⟨inv, D.moves_refl env m, by simp⟩
  | cons e rest ih =>
    rw [List.mapM_cons]
    refine Ends.bind (sound e env m inv (admits e m .here (D.moves_refl env m))) ?_
    rintro v m1 done ⟨inv, first, good⟩
    have later := ih m1 inv fun next m' turn moves =>
      admits next m' (.later done turn) (D.moves_trans first moves)
    refine Ends.bind (Ends.mono later (fun _ _ => id) fun h m' => D.halts_trans first) ?_
    rintro vs m2 - ⟨inv, second, goods⟩
    refine ⟨inv, D.moves_trans first second, ?_⟩
    intro w member
    rcases List.mem_cons.mp member with rfl | member
    · exact D.good_moves second good
    · exact goods w member

/-- The application of a function keeps a discipline if the body of a closure may be looked at. -/
theorem sound_apply (sound : D.Sound depth) {fn : Value} {args : List Value} (inv : D.Inv m)
    (goodFn : D.Good m fn) (goodArgs : ∀ a ∈ args, D.Good m a)
    (admits : ∀ stamp params body captured inner m', fn = .closure stamp params body captured →
      Eval.extend captured params args m = .ok inner m' → D.Admits ⟨depth, body, inner, m'⟩) :
    D.Meets env m (Eval.apply room (eval room depth) fn args m) := by
  cases fn with
  | primitive stamp op =>
    refine Ends.mono (op.call_ends room args m) ?_ ?_
    · rintro v m' ⟨quiet, made⟩
      have moves : D.Moves env m m' := D.moves_quiet quiet
      refine ⟨D.inv_quiet quiet inv, moves, ?_⟩
      exact D.good_madeFrom made fun a member => D.good_moves moves (goodArgs a member)
    · rintro h m' ⟨quiet, bound⟩
      exact ⟨D.stops_bound bound, fun _ => ⟨D.inv_quiet quiet inv, D.moves_quiet quiet⟩⟩
  | closure stamp params body captured =>
    have goodFn := goodFn _ .self
    refine Ends.bind (Q := fun inner m' => Eval.extend captured params args m = .ok inner m')
      (Eval.extend_ends (fun _ _ => id) (D.halts_fault inv (by simp))) ?_
    intro inner m1 _ entry
    have inside := sound body inner m1 (D.enter inv goodFn goodArgs entry)
      (admits stamp params body captured inner m1 rfl entry)
    refine Ends.mono inside ?_ ?_
    · rintro v m' ⟨inv, moves, good⟩
      exact ⟨inv, D.leave goodArgs entry moves, good⟩
    · rintro h m' ⟨stops, state⟩
      exact ⟨stops, fun looked => ⟨(state looked).1, D.leave goodArgs entry (state looked).2⟩⟩
  | _ => exact D.halts_fault inv (by simp)

private theorem sound_application (sound : D.Sound depth) {e head : Value} {args : List Value}
    (phrase : Phrase.of e = .ok (.application head args)) (inv : D.Inv m)
    (admits : D.Admits ⟨depth + 1, e, env, m⟩) :
    D.Meets env m ((Phrase.application head args).run room (eval room depth) env m) := by
  refine Ends.bind (sound head env m inv (D.operand admits phrase .here (D.moves_refl env m))) ?_
  rintro fn m1 headDone ⟨inv, first, good⟩
  have later := D.sound_items sound args m1 inv fun next m' turn moves =>
    D.operand admits phrase (.later headDone turn) (D.moves_trans first moves)
  refine Ends.bind (Ends.mono later (fun _ _ => id) fun h m' => D.halts_trans first) ?_
  rintro values m2 argsDone ⟨inv, second, goods⟩
  have moves := D.moves_trans first second
  have good := D.good_moves second good
  refine D.meets_trans moves (D.sound_apply sound inv good goods ?_)
  intro stamp params body captured inner m' closure entry
  subst closure
  exact D.body ⟨head, args, stamp, params, body, captured, values, m2, inner, m', phrase,
    mapM_cons_ok headDone argsDone, entry⟩ admits moves (good _ .self)

private theorem sound_define (sound : D.Sound depth) {e expr : Value} {x : Symbol}
    (phrase : Phrase.of e = .ok (.define x expr)) (inv : D.Inv m)
    (admits : D.Admits ⟨depth + 1, e, env, m⟩) :
    D.Meets env m ((Phrase.define x expr).run room (eval room depth) env m) := by
  refine Ends.bind (Q := fun m0 m' => m0 = m ∧ m' = m) ⟨rfl, rfl⟩ ?_
  rintro m0 m' - ⟨same, same'⟩
  subst m0 m'
  refine Ends.bind (sound expr env m inv (D.define admits phrase)) ?_
  rintro v m1 done ⟨inv1, moves, good⟩
  let run : DefineRun room depth e env m := ⟨x, expr, v, m1, phrase, done⟩
  -- A report comes before the name gets its value, and leaves the store alone.
  have reported (r : Record) : Quiet m1 (m1.addRecord r) := ⟨rfl, Nat.le_refl _⟩
  have step (r : Record) : D.Moves env m1 (m1.addRecord r) := D.moves_quiet (reported r)
  have moved (r : Record) : D.Moves env m (m1.addRecord r) := D.moves_trans moves (step r)
  have goods (r : Record) : D.Good (m1.addRecord r) v := D.good_moves (step r) good
  have unit (m' : Machine) : D.Good m' .unit := by
    intro part inside
    cases inside
    exact D.part_unit
  cases found : m.store.find? env x with
  | some f =>
    obtain ⟨inv2, last⟩ := D.assign run admits inv found (reported (.rebound x)) (moved _)
      (D.inv_quiet (reported _) inv1) (goods _)
    exact ⟨inv2, D.moves_trans (moved _) last, unit _⟩
  | none =>
    obtain ⟨inv2, last⟩ := D.push run admits found (reported (.defined x)) (moved _)
      (D.inv_quiet (reported _) inv1) (goods _)
    exact ⟨inv2, D.moves_trans (moved _) last, unit _⟩

private theorem sound_branch (sound : D.Sound depth) {e condition consequent alternative : Value}
    (phrase : Phrase.of e = .ok (.branch condition consequent alternative)) (inv : D.Inv m)
    (admits : D.Admits ⟨depth + 1, e, env, m⟩) :
    D.Meets env m
      ((Phrase.branch condition consequent alternative).run room (eval room depth) env m) := by
  refine Ends.bind (sound condition env m inv (D.condition admits phrase)) ?_
  rintro v m1 done ⟨inv, moves, -⟩
  have taken := D.branch admits phrase done moves
  cases truth : v.isTrue with
  | true =>
    rw [truth, if_pos rfl] at taken
    rw [if_pos rfl]
    exact D.meets_trans moves (sound consequent env m1 inv taken)
  | false =>
    rw [truth, if_neg Bool.false_ne_true] at taken
    rw [if_neg Bool.false_ne_true]
    exact D.meets_trans moves (sound alternative env m1 inv taken)

private theorem sound_letRec (sound : D.Sound depth) {e : Value} {b : Form.Bindings}
    (phrase : Phrase.of e = .ok (.letRec b)) (inv : D.Inv m)
    (admits : D.Admits ⟨depth + 1, e, env, m⟩) :
    D.Meets env m ((Phrase.letRec b).run room (eval room depth) env m) := by
  refine Ends.bind (Q := fun inner m' =>
      Eval.extend env b.params (b.params.map fun _ => .unassigned) m = .ok inner m')
    (Eval.extend_ends (fun _ _ => id) (D.halts_fault inv (by simp))) ?_
  intro inner m1 _ entry
  let opening : LetRecOpening e env m := ⟨b, inner, m1, phrase, entry⟩
  have abandoned {h : Halt} {m' : Machine} (halts : D.Halts inner m1 h m') : D.Halts env m h m' :=
    ⟨halts.1, fun looked =>
      ⟨(halts.2 looked).1, D.abandon opening looked (halts.2 looked).2⟩⟩
  have inits := D.sound_items sound b.inits m1 (D.opening opening admits inv) fun next m' =>
    D.initializer opening admits
  refine Ends.bind (Ends.mono inits (fun _ _ => id) fun h m' => abandoned) ?_
  rintro values m2 done ⟨inv2, moves, goods⟩
  let run : LetRecRun room depth e env m := ⟨opening, values, m2, done⟩
  refine Ends.bind (Q := fun _ m' => Eval.rebindHead inner b.params values m2 = .ok () m')
    (Eval.rebindHead_ends (fun _ => id) ?_) ?_
  · intro c bound
    exact abandoned (D.halts_trans moves (D.halts_fault inv2 bound))
  intro _ m3 _ rebound
  have reported : Quiet m3 (m3.addRecord (.letrecBound b.params)) := ⟨rfl, Nat.le_refl _⟩
  have inv3 := D.inv_quiet reported (D.rebind run admits moves inv2 goods rebound)
  have body := sound (Form.application b) inner _ inv3 (D.letRec run admits moves rebound)
  refine Ends.mono body ?_ ?_
  · rintro v m4 ⟨inv4, last, good⟩
    exact ⟨inv4, D.close run admits moves goods rebound last, good⟩
  · rintro h m4 ⟨stops, state⟩
    exact ⟨stops, fun looked =>
      ⟨(state looked).1, D.close run admits moves goods rebound (state looked).2⟩⟩

private theorem sound_name {e : Value} {x : Symbol} (phrase : Phrase.of e = .ok (.name x))
    (inv : D.Inv m) (admits : D.Admits ⟨depth + 1, e, env, m⟩) :
    D.Meets env m ((Phrase.name x).run room (eval room depth) env m) := by
  have opened : (Phrase.name x).run room (eval room depth) env m =
      Eval.ofExcept (m.store.lookup env x) m := rfl
  rw [opened]
  unfold Store.lookup
  split
  · rename_i absent
    exact ⟨D.unbound admits phrase absent, fun _ => ⟨inv, D.moves_refl env m⟩⟩
  · exact D.halts_fault inv (by simp)
  · rename_i v assigned found
    exact ⟨inv, D.moves_refl env m, D.lookup inv admits phrase found assigned⟩

/-- Every call that is looked at keeps the discipline, however it ends. -/
theorem sound : ∀ depth, D.Sound depth := by
  intro depth
  induction depth with
  | zero =>
    intro e env m inv _
    have bound : Halt.exhausted.Bound := fun x same => Halt.noConfusion same
    exact ⟨D.stops_bound bound, fun _ => ⟨inv, D.moves_refl env m⟩⟩
  | succ depth ih =>
    intro e env m inv admits
    rw [eval_succ_eq_run]
    refine Ends.bind (Q := fun p m' => Phrase.of e = .ok p ∧ m' = m) ?_ ?_
    · exact Ends.ofExcept (fun p phrase => ⟨phrase, rfl⟩) fun c refused =>
        D.halts_fault inv (Phrase.of_eq_error_ne_unbound refused)
    rintro p m' - ⟨phrase, rfl⟩
    cases p with
    | number x =>
      refine ⟨inv, D.moves_refl env m', ?_⟩
      intro part inside
      rw [Value.occursIn_number inside]
      exact D.part_made rfl
    | name x => exact D.sound_name phrase inv admits
    | application head args => exact D.sound_application ih phrase inv admits
    | lambda params body =>
      have stamped : Quiet m' m'.nextStamp.2 := ⟨rfl, Nat.le_succ _⟩
      have moves : D.Moves env m' m'.nextStamp.2 := D.moves_quiet stamped
      refine ⟨D.inv_quiet stamped inv, moves, ?_⟩
      intro part inside
      cases inside
      exact D.part_moves moves (D.lambda inv admits phrase)
    | letPlain b => exact ih _ env m' inv (D.letPlain admits phrase)
    | letRec b => exact D.sound_letRec ih phrase inv admits
    | branch condition consequent alternative => exact D.sound_branch ih phrase inv admits
    | define x expr => exact D.sound_define ih phrase inv admits

/-! ## The calls made on the way -/

/-- The state in which an expression gets its turn. -/
theorem sound_turn {items : List Value} {next : Value}
    (turn : InTurn (eval room depth) env items m next m') (inv : D.Inv m)
    (admits : ∀ next m', InTurn (eval room depth) env items m next m' → D.Moves env m m' →
      D.Admits ⟨depth, next, env, m'⟩) : D.Inv m' ∧ D.Moves env m m' := by
  induction turn with
  | @here e rest m => exact ⟨inv, D.moves_refl env m⟩
  | @later e next v rest m m1 m' done turn ih =>
    have first := D.sound depth e env m inv (admits e m .here (D.moves_refl env m))
    rw [done] at first
    obtain ⟨inv1, moves, -⟩ := first
    have later := ih inv1 fun next m' turn later =>
      admits next m' (.later done turn) (D.moves_trans moves later)
    exact ⟨later.1, D.moves_trans moves later.2⟩

/-- The state in which a function and its arguments have been evaluated. -/
theorem applied {e : Value} (app : Application room depth e env m) (inv : D.Inv m)
    (admits : D.Admits ⟨depth + 1, e, env, m⟩) :
    D.Inv app.evaluated ∧ D.Moves env m app.evaluated ∧
      ∀ a ∈ app.fn :: app.values, D.Good app.evaluated a := by
  have operands := D.sound_items (D.sound depth) (app.head :: app.args) m inv
    fun next m' => D.operand admits app.phrase
  rw [app.operands] at operands
  exact operands

/-- The state in which a closure and its arguments have been evaluated. -/
theorem evaluated {e : Value} (call : ClosureCall room depth e env m) (inv : D.Inv m)
    (admits : D.Admits ⟨depth + 1, e, env, m⟩) :
    D.Inv call.evaluated ∧ D.Moves env m call.evaluated ∧
      D.Part call.evaluated (.closure call.stamp call.params call.body call.captured) ∧
      ∀ a ∈ call.values, D.Good call.evaluated a := by
  obtain ⟨inv, moves, goods⟩ := D.applied call.application inv admits
  refine ⟨inv, moves, goods _ List.mem_cons_self _ .self, ?_⟩
  exact fun a member => goods a (List.mem_cons_of_mem _ member)

/-- The state in which the value of `define` has been computed. -/
theorem computed {e : Value} (run : DefineRun room depth e env m) (inv : D.Inv m)
    (admits : D.Admits ⟨depth + 1, e, env, m⟩) :
    D.Inv run.computed ∧ D.Moves env m run.computed ∧ D.Good run.computed run.value := by
  have value := D.sound depth run.expr env m inv (D.define admits run.phrase)
  rw [run.done] at value
  exact value

/-- The state in which the initializers of `letrec` have been evaluated. -/
theorem initialized {e : Value} (run : LetRecRun room depth e env m) (inv : D.Inv m)
    (admits : D.Admits ⟨depth + 1, e, env, m⟩) :
    D.Inv run.initialized ∧ D.Moves run.inner run.opened run.initialized ∧
      ∀ v ∈ run.values, D.Good run.initialized v := by
  have inits := D.sound_items (D.sound depth) run.bindings.inits run.opened
    (D.opening run.toLetRecOpening admits inv) fun next m' =>
      D.initializer run.toLetRecOpening admits
  rw [run.initializers] at inits
  exact inits

/-- A call that is made by one that is looked at is looked at too, in a state as it should be. -/
theorem makes {c d : Call} (made : Call.Makes room c d) (inv : D.Inv c.machine)
    (admits : D.Admits c) : D.Inv d.machine ∧ D.Admits d := by
  cases made with
  | operand phrase turn =>
    obtain ⟨inv', moves⟩ := D.sound_turn turn inv fun next m' => D.operand admits phrase
    exact ⟨inv', D.operand admits phrase turn moves⟩
  | body call =>
    obtain ⟨inv', moves, part, goods⟩ := D.evaluated call inv admits
    exact ⟨D.enter inv' part goods call.entry, D.body call admits moves part⟩
  | letPlain phrase => exact ⟨inv, D.letPlain admits phrase⟩
  | initializer run turn =>
    obtain ⟨inv', moves⟩ := D.sound_turn turn (D.opening run admits inv) fun next m' =>
      D.initializer run admits
    exact ⟨inv', D.initializer run admits turn moves⟩
  | @letRec _ _ _ _ m' run rebound =>
    obtain ⟨inv', moves, goods⟩ := D.initialized run inv admits
    have reported : Quiet m' (m'.addRecord (.letrecBound run.bindings.params)) :=
      ⟨rfl, Nat.le_refl _⟩
    have patched := D.inv_quiet reported (D.rebind run admits moves inv' goods rebound)
    exact ⟨patched, D.letRec run admits moves rebound⟩
  | condition phrase => exact ⟨inv, D.condition admits phrase⟩
  | @branch _ _ condition _ _ _ env m _ phrase done =>
    have taken := D.sound _ condition env m inv (D.condition admits phrase)
    rw [done] at taken
    exact ⟨taken.1, D.branch admits phrase done taken.2.1⟩
  | define phrase => exact ⟨inv, D.define admits phrase⟩

/-- Every call made during an evaluation starts from a state as it should be. -/
theorem visits {root c : Call} (visited : Call.Visits room root c) (inv : D.Inv root.machine)
    (admits : D.Admits root) : D.Inv c.machine ∧ D.Admits c := by
  induction visited with
  | refl => exact ⟨inv, admits⟩
  | tail _ made ih => exact D.makes made ih.1 ih.2

end Discipline

/-! ## Values of one kind -/

/-- Whatever occurs in a value is of some kind. -/
def Value.MadeOf (P : Value → Prop) (v : Value) : Prop := ∀ part : Value, part.OccursIn v → P part

/-- What names are bound to is made of values of some kind, but for placeholders. -/
def Store.HoldsOnly (P : Value → Prop) (s : Store) : Prop :=
  ∀ f x v, s.Binds f x v → v ≠ .unassigned → v.MadeOf P

namespace Store.HoldsOnly

variable {P : Value → Prop} {s t : Store} {e v : Value} {env inner : EnvRef} {m m' : Machine}
  {params : List Symbol} {args : List Value} {f : FrameRef} {x : Symbol}

theorem of_binds (holds : s.HoldsOnly P)
    (bound : ∀ f x v, t.Binds f x v → s.Binds f x v ∨ v = .unassigned ∨ v.MadeOf P) :
    t.HoldsOnly P := by
  intro f x v binds pending
  rcases bound f x v binds with binds | same | made
  · exact holds f x v binds pending
  · exact absurd same pending
  · exact made

theorem assign (holds : s.HoldsOnly P) (made : v.MadeOf P) : (s.assign f x v).HoldsOnly P := by
  refine holds.of_binds fun g y w binds => ?_
  rcases Store.binds_assign binds with binds | ⟨_, _, rfl⟩
  · exact .inl binds
  · exact .inr (.inr made)

theorem push (holds : s.HoldsOnly P) (made : v.MadeOf P) :
    (s.push env (Frame.ofPairs [(x, v)])).HoldsOnly P := by
  refine holds.of_binds fun g y w binds => ?_
  rcases Store.binds_push binds with binds | ⟨_, rfl⟩
  · exact .inl binds
  · exact .inr (.inr made)

theorem of_extend (holds : m.store.HoldsOnly P) (made : ∀ a ∈ args, a.MadeOf P)
    (entry : Eval.extend env params args m = .ok inner m') : m'.store.HoldsOnly P := by
  refine holds.of_binds fun f x v binds => ?_
  rcases Eval.binds_of_extend entry binds with binds | ⟨_, member⟩
  · exact .inl binds
  · exact .inr (.inr (made v member))

theorem of_rebindHead (holds : m.store.HoldsOnly P) (made : ∀ a ∈ args, a.MadeOf P)
    (rebound : Eval.rebindHead env params args m = .ok () m') : m'.store.HoldsOnly P := by
  refine holds.of_binds fun f x v binds => ?_
  rcases Eval.binds_of_rebindHead rebound binds with binds | member
  · exact .inl binds
  · exact .inr (.inr (made v member))

theorem of_opening (holds : m.store.HoldsOnly P) (run : LetRecOpening e env m) :
    run.opened.store.HoldsOnly P := by
  refine holds.of_binds fun f x v binds => ?_
  rcases Eval.binds_of_extend run.entry binds with binds | ⟨_, member⟩
  · exact .inl binds
  · obtain ⟨_, _, rfl⟩ := List.mem_map.mp member
    exact .inr (.inl rfl)

end Store.HoldsOnly

/-- Values of a kind that takes in every closure and whatever a primitive or a form can make stay
    among themselves, however an evaluation ends. -/
def Discipline.ofKind (room : Nat) (P : Value → Prop) (made : ∀ {v : Value}, v.isMade = true → P v)
    (unit : P .unit)
    (closure : ∀ stamp params body env, P (.closure stamp params body env)) : Discipline room where
  Inv m := m.store.HoldsOnly P
  Part _ v := P v
  Moves _ _ _ := True
  Admits _ := True
  Stops _ := True
  onHalt := True
  moves_refl _ _ := trivial
  moves_trans _ _ := trivial
  part_moves _ kind := kind
  part_made := made
  part_unit := unit
  inv_quiet quiet holds := quiet.store ▸ holds
  moves_quiet _ := trivial
  stops_bound _ := trivial
  unbound _ _ _ := trivial
  lookup holds _ _ found assigned := by
    obtain ⟨f, _, binds⟩ := Store.binding?_eq_some found
    exact holds f _ _ binds assigned
  lambda _ _ _ := closure _ _ _ _
  operand _ _ _ _ := trivial
  body _ _ _ _ := trivial
  enter holds _ made entry := holds.of_extend made entry
  leave _ _ _ := trivial
  letPlain _ _ := trivial
  condition _ _ := trivial
  branch _ _ _ _ := trivial
  define _ _ := trivial
  assign _ _ _ _ _ _ holds made := ⟨holds.assign made, trivial⟩
  push _ _ _ _ _ holds made := ⟨holds.push made, trivial⟩
  opening run _ holds := holds.of_opening run
  initializer _ _ _ _ := trivial
  abandon _ _ _ := trivial
  rebind _ _ _ holds made rebound := holds.of_rebindHead made rebound
  letRec _ _ _ _ := trivial
  close _ _ _ _ _ _ := trivial

end FrameLisp
