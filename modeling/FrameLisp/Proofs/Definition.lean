import FrameLisp.Proofs.Grammar
import Mathlib.Data.List.Find

/-!
What a definition does. The frame that binds the name before the value is computed is still the
first one to bind it afterwards, whatever has been defined on the way, since a name that is bound is
not given another frame in the same environment. So a definition changes what this frame binds the
name to, or puts one frame in front of its environment, and all other names, and the same name in
all other environments that do not share the frame, are resolved as before
(`eval_define_resolves`).

What evaluation keeps of a store is what its four kinds of writing keep (`KeptByWriting.eval`).
-/
namespace FrameLisp

/-! ## What is kept by writing -/

/-- Something about stores that is kept by each kind of writing that an evaluation does: a new
    environment for a call, a new value for a name in a frame that binds it, a new frame for a name
    that was not bound in the environment some time before, and values for the names of a `letrec`
    in a frame made since then. -/
structure KeptByWriting (K : Store → Prop) : Prop where
  extend : ∀ {s} env fr, K s → K (s.extend env fr).2
  assign : ∀ {s f x} v, x ∈ (s.frame f).names → K s → K (s.assign f x v)
  push : ∀ {s t env x} v, K s → s.find? env x = none → K t →
    K (t.push env (Frame.ofPairs [(x, v)]))
  assignAll : ∀ {s t head} pairs, K s → Fixes s t → ¬ s.HasFrame head → K t →
    K (t.assignAll head pairs)

namespace KeptByWriting

variable {K : Store → Prop} {room depth : Nat} {e : Value} {env inner : EnvRef} {m m' : Machine}
  {params : List Symbol} {args : List Value}

theorem of_extend (kept : KeptByWriting K) (holds : K m.store)
    (entry : Eval.extend env params args m = .ok inner m') : K m'.store := by
  obtain ⟨fr, _, _, rfl⟩ := Eval.extend_eq_ok entry
  exact kept.extend env fr holds

theorem of_letRec (kept : KeptByWriting K) (run : LetRecRun room depth e env m)
    (holds : K m.store) (initialized : K run.initialized.store)
    (rebound : Eval.rebindHead run.inner run.bindings.params run.values run.initialized =
      .ok () m') : K m'.store := by
  obtain ⟨fixes, fresh, _⟩ := fixes_of_extend run.entry
  obtain ⟨head, rest, _, chain, rfl⟩ := Eval.rebindHead_eq_ok rebound
  have since := fixes.trans_grows fresh run.grows
  exact kept.assignAll _ holds since (fresh_head run.entry run.grows chain) initialized

/-- What is kept by writing, along with the shape of the store. -/
def discipline (kept : KeptByWriting K) (room : Nat) : Discipline room where
  Inv m := K m.store
  Part _ _ := True
  Moves env m m' := Grows env m.store m'.store ∧ (K m.store → K m'.store)
  Admits c := K c.machine.store
  Stops _ := True
  onHalt := True
  moves_refl env m := ⟨(shape room).moves_refl env m, id⟩
  moves_trans first second := ⟨first.1.trans second.1, fun holds => second.2 (first.2 holds)⟩
  part_moves _ _ := trivial
  part_made _ := trivial
  part_unit := trivial
  inv_quiet quiet holds := quiet.store ▸ holds
  moves_quiet quiet := ⟨(shape room).moves_quiet quiet, fun holds => quiet.store ▸ holds⟩
  stops_bound _ := trivial
  unbound _ _ _ := trivial
  lookup _ _ _ _ _ _ _ := trivial
  lambda _ _ _ := trivial
  operand holds _ _ moves := moves.2 holds
  body call holds moves _ := kept.of_extend (moves.2 holds) call.entry
  enter holds _ _ entry := kept.of_extend holds entry
  leave good entry moves :=
    ⟨(shape room).leave good entry moves.1, fun holds => moves.2 (kept.of_extend holds entry)⟩
  letPlain holds _ := holds
  condition holds _ := holds
  branch holds _ _ moves := moves.2 holds
  define holds _ := holds
  assign run _ _ found _ moves holds _ := by
    obtain ⟨_, bound⟩ := Store.find?_eq_some found
    have bound := moves.1.names _ (Store.hasFrame_of_mem_names bound) ▸ bound
    exact ⟨kept.assign _ bound holds, (fixes_assign bound).grows, kept.assign _ bound⟩
  push run holds absent _ _ now _ :=
    ⟨kept.push _ holds absent now, grows_push _ _ _ _, kept.push _ holds absent⟩
  opening run _ holds := kept.of_extend holds run.entry
  initializer run holds _ moves := moves.2 (kept.of_extend holds run.entry)
  abandon run looked moves :=
    ⟨(shape room).abandon run looked moves.1,
      fun holds => moves.2 (kept.of_extend holds run.entry)⟩
  rebind run holds _ initialized _ rebound := kept.of_letRec run holds initialized rebound
  letRec run holds moves rebound := by
    have patched := kept.of_letRec run holds (moves.2 (kept.of_extend holds run.entry)) rebound
    exact patched
  close run holds moves _ rebound last := by
    refine ⟨(shape room).close run trivial moves.1 (fun _ _ _ _ => trivial) rebound last.1, ?_⟩
    intro holds
    have patched := kept.of_letRec run holds (moves.2 (kept.of_extend holds run.entry)) rebound
    exact last.2 patched

/-- Evaluation keeps what is kept by writing, however it ends. -/
theorem eval (kept : KeptByWriting K) (room depth : Nat) (e : Value) (env : EnvRef)
    (holds : K m.store) : K (stateAfter (eval room depth e env m)).store := by
  have meets := (kept.discipline room).sound depth e env m holds holds
  exact ((kept.discipline room).state trivial meets).1

end KeptByWriting

/-! ## Resolving names -/

namespace Store

variable {s t : Store} {env other : EnvRef} {f g : FrameRef} {x y : Symbol} {v w : Value}

/-- Every frame of an environment has been made. -/
def Linked (s : Store) : Prop := ∀ env, ∀ f ∈ s.chain env, s.HasFrame f

/-- An environment resolves a name to what a frame binds it to: the first of its frames that binds
    the name at all. -/
def Resolves (s : Store) (env : EnvRef) (x : Symbol) (f : FrameRef) (v : Value) : Prop :=
  s.find? env x = some f ∧ s.Binds f x v

/-- Every environment resolves every name to the same binding, but for some names there. -/
def SameBut (except : EnvRef → Symbol → Prop) (s t : Store) : Prop :=
  ∀ env x f v, ¬ except env x → (t.Resolves env x f v ↔ s.Resolves env x f v)

theorem hasEnv_of_find? (found : s.find? env x = some f) : s.HasEnv env := by
  by_contra absent
  have member := (find?_eq_some found).1
  rw [chain_of_not_hasEnv absent] at member
  cases member

theorem find?_of_same (chain : t.chain env = s.chain env)
    (names : ∀ f ∈ s.chain env, x ∈ (t.frame f).names ↔ x ∈ (s.frame f).names) :
    t.find? env x = s.find? env x := by
  unfold find?
  rw [chain]
  refine List.find?_congr fun f member => ?_
  rw [Bool.eq_iff_iff, Frame.binds_iff, Frame.binds_iff]
  exact names f member

/-- The value that a lookup yields is the one that the name resolves to. -/
theorem binding?_eq_some_iff : s.binding? env x = some v ↔ ∃ f, s.Resolves env x f v := by
  unfold Resolves binding? find? Binds
  induction s.chain env with
  | nil => simp
  | cons f rest ih =>
    rw [List.findSome?_cons]
    simp only [List.find?_cons]
    cases found : (s.frame f).get? x with
    | none =>
      have absent : (s.frame f).binds x = false := by simp [Frame.binds, found]
      simpa [absent] using ih
    | some w =>
      have bound : (s.frame f).binds x = true := by simp [Frame.binds, found]
      simp [bound, found]

theorem lookup_of_resolves (resolves : s.Resolves env x f v) (assigned : v ≠ .unassigned) :
    s.lookup env x = .ok v := by
  have found : s.binding? env x = some v := binding?_eq_some_iff.mpr ⟨f, resolves⟩
  unfold lookup
  rw [found]
  cases v with
  | unassigned => exact absurd rfl assigned
  | _ => rfl

/-! ### A new value for a name -/

theorem mem_names_assign (bound : x ∈ (s.frame f).names) :
    y ∈ ((s.assign f x v).frame g).names ↔ y ∈ (s.frame g).names := by
  have same : ((s.assign f x v).frame g).names = (s.frame g).names := by
    rcases frame_modifyFrame s f g (·.insert x v) with same | ⟨rfl, _, changed⟩
    · exact congrArg Frame.names same
    · rw [assign, changed, Frame.names_insert_of_mem bound]
  rw [same]

theorem find?_assign (bound : x ∈ (s.frame f).names) :
    (s.assign f x v).find? env y = s.find? env y :=
  find?_of_same rfl fun _ _ => mem_names_assign bound

theorem binds_assign_self (bound : x ∈ (s.frame f).names) : (s.assign f x v).Binds f x v := by
  unfold Binds assign
  rw [frame_modifyFrame_self (hasFrame_of_mem_names bound), Frame.get?_insert, if_pos rfl]

theorem binds_assign_iff (apart : ¬ (g = f ∧ y = x)) :
    (s.assign f x v).Binds g y w ↔ s.Binds g y w := by
  unfold Binds assign
  rcases frame_modifyFrame s f g (·.insert x v) with same | ⟨here, _, changed⟩
  · rw [same]
  · rw [changed, Frame.get?_insert, if_neg fun name => apart ⟨here, name⟩]

/-- Giving a name a value in a frame changes what it is resolved to where it is resolved to that
    frame, and nothing else. -/
theorem resolves_assign_iff (bound : x ∈ (s.frame f).names)
    (apart : ¬ (y = x ∧ s.find? other x = some f)) :
    (s.assign f x v).Resolves other y g w ↔ s.Resolves other y g w := by
  unfold Resolves
  rw [find?_assign bound]
  refine and_congr_right fun found => binds_assign_iff ?_
  rintro ⟨rfl, rfl⟩
  exact apart ⟨rfl, found⟩

/-! ### A new frame for a name -/

theorem find?_push_self (there : s.HasEnv env) :
    (s.push env (Frame.ofPairs [(x, v)])).find? env x = some s.nextFrame := by
  have bound : ((s.push env (Frame.ofPairs [(x, v)])).frame s.nextFrame).binds x = true := by
    rw [Frame.binds_iff, frame_push, if_pos rfl, Frame.names_ofPairs_singleton]
    exact List.mem_singleton.mpr rfl
  unfold find?
  rw [chain_push_self there, List.find?_cons, bound]

theorem binds_push_self : (s.push env (Frame.ofPairs [(x, v)])).Binds s.nextFrame x v := by
  unfold Binds
  rw [frame_push, if_pos rfl]
  exact (Frame.get?_insert ..).trans (if_pos rfl)

/-- A new frame that binds one name is not in the way of any other name, nor of any other
    environment. -/
theorem find?_push (linked : s.Linked) (apart : ¬ (y = x ∧ other = env)) :
    (s.push env (Frame.ofPairs [(x, v)])).find? other y = s.find? other y := by
  have old : ∀ f ∈ s.chain other,
      (s.push env (Frame.ofPairs [(x, v)])).frame f = s.frame f := by
    intro f member
    rw [frame_push, if_neg (ne_nextFrame (linked other f member))]
  have names : ∀ f ∈ s.chain other, y ∈ ((s.push env (Frame.ofPairs [(x, v)])).frame f).names ↔
      y ∈ (s.frame f).names := by
    intro f member
    rw [old f member]
  by_cases same : other = env
  · subst same
    by_cases there : s.HasEnv other
    · have absent :
          ((s.push other (Frame.ofPairs [(x, v)])).frame s.nextFrame).binds y = false := by
        rw [← Bool.not_eq_true, Frame.binds_iff, frame_push, if_pos rfl,
          Frame.names_ofPairs_singleton, List.mem_singleton]
        exact fun name => apart ⟨name, rfl⟩
      unfold find?
      rw [chain_push_self there, List.find?_cons, absent]
      refine List.find?_congr fun f member => ?_
      rw [old f member]
    · exact find?_of_same (chain_push_of_not_hasEnv there _) names
  · exact find?_of_same (chain_push_other same _) names

theorem resolves_push_iff (linked : s.Linked) (apart : ¬ (y = x ∧ other = env)) :
    (s.push env (Frame.ofPairs [(x, v)])).Resolves other y g w ↔ s.Resolves other y g w := by
  unfold Resolves
  rw [find?_push linked apart]
  refine and_congr_right fun found => ?_
  have there := linked other g (find?_eq_some found).1
  rw [Binds, Binds, frame_push, if_neg (ne_nextFrame there)]

/-! ### What evaluation keeps -/

theorem keptByWriting_linked : KeptByWriting Linked where
  extend {s} env fr linked other g member := by
    have grown := fixes_extend s env fr
    rw [chain_extend] at member
    split at member
    · rcases List.mem_cons.mp member with rfl | member
      · simp [HasFrame, nextFrame, frames_size_extend]
      · exact grown.hasFrame (linked env g member)
    · exact grown.hasFrame (linked other g member)
  assign v bound linked other g member :=
    (fixes_assign bound).hasFrame (linked other g member)
  push {_ t env x} v _ _ linked other g member := by
    rcases mem_chain_push member with ⟨rfl, _⟩ | member
    · simp [HasFrame, nextFrame, frames_size_push]
    · exact (grows_push t env x v).hasFrame (linked other g member)
  assignAll pairs _ _ _ linked other g member := by
    have there := linked other g member
    rwa [HasFrame, assignAll, frames_size_modifyFrame]

/-- A name that an environment finds in a frame is found there from then on. A definition of it in
    that environment has found it bound, and so puts no frame in front. -/
theorem keptByWriting_found (env : EnvRef) (x : Symbol) (f : FrameRef) :
    KeptByWriting fun s => s.Linked ∧ s.find? env x = some f where
  extend {s} other fr before := by
    obtain ⟨linked, found⟩ := before
    refine ⟨keptByWriting_linked.extend other fr linked, ?_⟩
    have there := hasEnv_of_find? found
    have grown := fixes_extend s other fr
    rw [← found]
    exact find?_of_same (grown.chain env there) fun g member => by
      rw [grown.names g (linked env g member)]
  assign v bound before :=
    ⟨keptByWriting_linked.assign v bound before.1, (find?_assign bound).trans before.2⟩
  push {s t other y} v before absent now := by
    refine ⟨keptByWriting_linked.push v before.1 absent now.1, ?_⟩
    rw [find?_push now.1, now.2]
    rintro ⟨rfl, rfl⟩
    rw [absent] at before
    cases before.2
  assignAll {s t head} pairs before fixes fresh now := by
    refine ⟨keptByWriting_linked.assignAll pairs before.1 fixes fresh now.1, ?_⟩
    have there := hasEnv_of_find? before.2
    rw [← now.2]
    refine find?_of_same rfl fun g member => ?_
    rw [fixes.chain env there] at member
    have apart : g ≠ head := by
      rintro rfl
      exact fresh (before.1 env g member)
    rw [assignAll, frame_modifyFrame_other apart]

end Store

/-! ## Definitions -/

section
variable {room depth : Nat} {e expr v : Value} {env : EnvRef} {m m1 : Machine} {x : Symbol}
  {f : FrameRef}

/-- The frame that binds a name before an expression is evaluated is the first to bind it still. -/
theorem find?_after (linked : m.store.Linked) (found : m.store.find? env x = some f)
    (done : eval room depth expr env m = .ok v m1) : m1.store.find? env x = some f := by
  have kept := (Store.keptByWriting_found env x f).eval room depth expr env ⟨linked, found⟩
  rw [done] at kept
  exact kept.2

theorem linked_after (linked : m.store.Linked) (done : eval room depth expr env m = .ok v m1) :
    m1.store.Linked := by
  have kept := Store.keptByWriting_linked.eval room depth expr env linked
  rwa [done] at kept

theorem hasEnv_after (there : m.store.HasEnv env) (done : eval room depth expr env m = .ok v m1) :
    m1.store.HasEnv env := by
  have grows := (eval_grows_apply_fixes room depth m).1 expr env
  rw [done] at grows
  exact grows.hasEnv there

/-- Where the expression for a function yields a value, its parameters are distinct names and the
    value is the function. -/
theorem eval_functionOf_eq_ok {params : List Value} {body : Value}
    (done : eval room depth (Form.functionOf params body) env m = .ok v m1) :
    ∃ stamp names, params = names.map .symbol ∧ v = .closure stamp names body env := by
  cases depth with
  | zero => cases done
  | succ depth =>
    cases phrase : Phrase.of (Form.functionOf params body) with
    | error c =>
      rw [eval_of_refused phrase] at done
      cases done
    | ok p =>
      obtain ⟨names, checked, rfl⟩ := Phrase.map_eq_ok phrase
      obtain ⟨⟨_, same⟩, _⟩ := Form.checkParams_eq_ok.mp checked
      cases same
      rw [eval_of_phrase phrase] at done
      cases done
      exact ⟨_, names, rfl, rfl⟩

theorem Phrase.of_define {tail : List Value}
    (headed : e.items? = some (.symbol Keyword.define.symbol :: tail))
    (defines : Form.Defines x expr tail) : Phrase.of e = .ok (.define x expr) := by
  have split := Form.splitDefine_eq_ok_iff.mpr defines
  rw [Phrase.of_eq_ofForm headed, Phrase.ofForm, split]
  rfl

end

/-- A definition stops where the expression for its value does. Otherwise it gives the name this
    value, in the frame that bound the name before if there was one, and in a new frame of the
    environment if not. From then on the environment resolves the name to the value, while other
    names, and the name where another frame is found, are resolved as right after the value was
    computed. A function that is defined sees itself under its name. -/
theorem eval_define_resolves {e expr : Value} {tail : List Value} {x : Symbol} {env : EnvRef}
    {m : Machine} (headed : e.items? = some (.symbol Keyword.define.symbol :: tail))
    (defines : Form.Defines x expr tail) (linked : m.store.Linked) (there : m.store.HasEnv env)
    (room depth : Nat) :
    (∀ h m1, eval room depth expr env m = .error h m1 →
      eval room (depth + 1) e env m = .error h m1) ∧
    ∀ v m1, eval room depth expr env m = .ok v m1 →
      ∃ m', eval room (depth + 1) e env m = .ok .unit m' ∧
        ((∃ f, m.store.find? env x = some f ∧ m1.store.find? env x = some f ∧
            m' = (m1.addRecord (.rebound x)).mapStore (·.assign f x v) ∧
            Store.SameBut (fun other y => y = x ∧ m1.store.find? other x = some f) m1.store
              m'.store) ∨
          (m.store.find? env x = none ∧
            m' = (m1.addRecord (.defined x)).mapStore (·.push env (Frame.ofPairs [(x, v)])) ∧
            Store.SameBut (fun other y => y = x ∧ other = env) m1.store m'.store)) ∧
        (∃ f, m'.store.Resolves env x f v) ∧
        ∀ params body, expr = Form.functionOf params body →
          ∃ stamp names, params = names.map .symbol ∧ v = .closure stamp names body env ∧
            m'.store.lookup env x = .ok v := by
  have phrase := Phrase.of_define headed defines
  constructor
  · intro h m1 stopped
    rw [eval_of_phrase phrase, run_define, stopped]
  intro v m1 done
  have defined : eval room (depth + 1) e env m = _ := eval_of_phrase phrase
  rw [run_define, done] at defined
  -- A function is no placeholder, so that looking it up yields it.
  have function (m' : Machine) (resolved : ∃ f, m'.store.Resolves env x f v) (params body)
      (same : expr = Form.functionOf params body) :
      ∃ stamp names, params = names.map .symbol ∧ v = .closure stamp names body env ∧
        m'.store.lookup env x = .ok v := by
    subst same
    obtain ⟨stamp, names, rfl, rfl⟩ := eval_functionOf_eq_ok done
    obtain ⟨f, resolves⟩ := resolved
    exact ⟨stamp, names, rfl, rfl, Store.lookup_of_resolves resolves (by simp)⟩
  cases found : m.store.find? env x with
  | some f =>
    have still := find?_after linked found done
    obtain ⟨_, bound⟩ := Store.find?_eq_some still
    rw [found] at defined
    have resolved : (m1.store.assign f x v).Resolves env x f v :=
      ⟨(Store.find?_assign bound).trans still, Store.binds_assign_self bound⟩
    refine ⟨_, defined, .inl ⟨f, rfl, still, rfl, ?_⟩, ⟨f, resolved⟩, function _ ⟨f, resolved⟩⟩
    intro other y g w apart
    exact Store.resolves_assign_iff bound apart
  | none =>
    rw [found] at defined
    have resolved :
        (m1.store.push env (Frame.ofPairs [(x, v)])).Resolves env x m1.store.nextFrame v :=
      ⟨Store.find?_push_self (hasEnv_after there done), Store.binds_push_self⟩
    have linked : m1.store.Linked := linked_after linked done
    refine ⟨_, defined, .inr ⟨rfl, rfl, ?_⟩, ⟨_, resolved⟩, function _ ⟨_, resolved⟩⟩
    intro other y g w apart
    exact Store.resolves_push_iff linked apart

/-- `(define (loop n) (loop n))`. -/
def loopDefinition : Value :=
  .list ⟨1⟩ [.symbol ⟨"define"⟩, .list ⟨2⟩ [.symbol ⟨"loop"⟩, .symbol ⟨"n"⟩],
    .list ⟨3⟩ [.symbol ⟨"loop"⟩, .symbol ⟨"n"⟩]]

/-- In an environment that binds nothing, a function that calls itself can be defined. -/
theorem eval_define_resolves_loopDefinition :
    let body := .list ⟨3⟩ [.symbol ⟨"loop"⟩, .symbol ⟨"n"⟩]
    let tail := [.list ⟨2⟩ [.symbol ⟨"loop"⟩, .symbol ⟨"n"⟩], body]
    let expr := Form.functionOf [.symbol ⟨"n"⟩] body
    let m := Machine.empty.mapStore fun s => (s.newEnvOf [.empty]).2
    loopDefinition.items? = some (.symbol Keyword.define.symbol :: tail) ∧
      Form.Defines ⟨"loop"⟩ expr tail ∧ m.store.Linked ∧ m.store.HasEnv ⟨0⟩ ∧
      ∃ m' stamp, eval 10 2 loopDefinition ⟨0⟩ m = .ok .unit m' ∧
        m'.store.lookup ⟨0⟩ ⟨"loop"⟩ = .ok (.closure stamp [⟨"n"⟩] body ⟨0⟩) := by
  intro body tail expr m
  have headed : loopDefinition.items? = some (.symbol Keyword.define.symbol :: tail) := rfl
  have defines : Form.Defines ⟨"loop"⟩ expr tail := .function
  have linked : m.store.Linked := by
    intro env f member
    match env with
    | ⟨0⟩ =>
      have same : f = ⟨0⟩ := List.mem_singleton.mp member
      subst same
      exact Nat.one_pos
    | ⟨n + 1⟩ => cases member
  have there : m.store.HasEnv ⟨0⟩ := Nat.one_pos
  refine ⟨headed, defines, linked, there, ?_⟩
  have done : eval 10 1 expr ⟨0⟩ m = .ok (.closure ⟨m.stamps⟩ [⟨"n"⟩] body ⟨0⟩) m.nextStamp.2 := rfl
  obtain ⟨m', defined, _, _, function⟩ :=
    (eval_define_resolves headed defines linked there 10 1).2 _ _ done
  obtain ⟨stamp, names, _, same, found⟩ := function _ _ rfl
  rw [same] at found
  cases same
  exact ⟨m', _, defined, found⟩

end FrameLisp
