import FrameLisp.Proofs.Irrelevance

/-!
Placeholders that have been filled. One state `Fills` another if it differs from it only in that
some names of one frame have got values in place of placeholders, and in what it has told the host.
A computation that looks at a placeholder stops, so whatever a computation yields while there are
placeholders it also yields when they have been filled (`eval_follows`).
-/
namespace FrameLisp

/-! ## States -/

/-- Frames that bind the same names to the same values, unless the first holds a placeholder; if
    they are fixed, they are the same. -/
structure Frame.Filled (fixed : Prop) (f g : Frame) : Prop where
  same : fixed → f = g
  values : ∀ x, f.get? x = some .unassigned ∨ f.get? x = g.get? x

/-- Stores that are the same but for one frame, in which the second may hold other values where the
    first holds placeholders. -/
structure Store.Fills (patched : FrameRef) (s t : Store) : Prop where
  shape : s.AgreeExcept Set.univ t
  frame : ∀ f, Frame.Filled (f ≠ patched) (s.frame f) (t.frame f)

/-- States that are the same but for placeholders in one frame, and for notes and reports. -/
structure Machine.Fills (patched : FrameRef) (m n : Machine) : Prop where
  store : m.store.Fills patched n.store
  stamps : m.stamps = n.stamps
  calls : m.calls = n.calls

namespace Frame.Filled

variable {fixed : Prop} {f g : Frame}

theorem refl (fixed : Prop) (f : Frame) : f.Filled fixed f := ⟨fun _ => rfl, fun _ => .inr rfl⟩

/-- Frames that bind the same names, the first of them to placeholders only. -/
theorem of_pending (loose : ¬ fixed) (names : f.names = g.names)
    (pending : ∀ x v, f.get? x = some v → v = .unassigned) : f.Filled fixed g := by
  refine ⟨fun holds => absurd holds loose, fun x => ?_⟩
  cases found : f.get? x with
  | some v => exact .inl (congrArg some (pending x v found))
  | none =>
    have absent : x ∉ g.names := by
      rw [← names, mem_names_iff]
      simp [found]
    rw [mem_names_iff, not_exists] at absent
    exact .inr (Option.eq_none_iff_forall_ne_some.mpr absent).symm

theorem insert (filled : f.Filled fixed g) (x : Symbol) (v : Value) :
    (f.insert x v).Filled fixed (g.insert x v) := by
  refine ⟨fun holds => by rw [filled.same holds], fun y => ?_⟩
  rw [get?_insert, get?_insert]
  split
  · exact .inr rfl
  · exact filled.values y

theorem insertAll (filled : f.Filled fixed g) (pairs : List (Symbol × Value)) :
    (f.insertAll pairs).Filled fixed (g.insertAll pairs) := by
  induction pairs generalizing f g with
  | nil => exact filled
  | cons pair rest ih => exact ih (filled.insert pair.1 pair.2)

end Frame.Filled

namespace Store.Fills

variable {patched : FrameRef} {s t : Store} {env : EnvRef} {x : Symbol} {v : Value}

/-- A variable that has a value has the same value when placeholders have been filled. -/
theorem lookup (fills : s.Fills patched t) (found : s.lookup env x = .ok v) :
    t.lookup env x = .ok v := by
  have same : s.binding? env x = some .unassigned ∨ s.binding? env x = t.binding? env x := by
    unfold binding?
    rw [fills.shape.chain]
    induction t.chain env with
    | nil => exact .inr rfl
    | cons f rest ih =>
      rw [List.findSome?_cons, List.findSome?_cons]
      rcases (fills.frame f).values x with pending | same
      · rw [pending]
        exact .inl rfl
      · rw [← same]
        cases (s.frame f).get? x with
        | none => exact ih
        | some w => exact .inr rfl
  unfold Store.lookup at found ⊢
  rcases same with pending | same
  · rw [pending] at found
    cases found
  · rwa [← same]

theorem extend (fills : s.Fills patched t) (env : EnvRef) (fr : Frame) :
    (s.extend env fr).2.Fills patched (t.extend env fr).2 := by
  refine ⟨fills.shape.extend env fr, fun f => ?_⟩
  rw [frame_extend, frame_extend, fills.shape.nextFrame]
  split
  · exact .refl _ fr
  · exact fills.frame f

theorem push (fills : s.Fills patched t) (env : EnvRef) (fr : Frame) :
    (s.push env fr).Fills patched (t.push env fr) := by
  refine ⟨fills.shape.push env (.refl fr), fun f => ?_⟩
  rw [frame_push, frame_push, fills.shape.nextFrame]
  split
  · exact .refl _ fr
  · exact fills.frame f

private theorem modifyFrame (fills : s.Fills patched t) (f : FrameRef) {change : Frame → Frame}
    (shape : (s.modifyFrame f change).AgreeExcept Set.univ (t.modifyFrame f change))
    (kept : ∀ {fixed : Prop} {fr fr' : Frame}, fr.Filled fixed fr' →
      (change fr).Filled fixed (change fr')) :
    (s.modifyFrame f change).Fills patched (t.modifyFrame f change) := by
  refine ⟨shape, fun g => ?_⟩
  by_cases same : g = f
  · subst same
    by_cases there : s.HasFrame g
    · have there' : t.HasFrame g := by rwa [HasFrame, ← fills.shape.frames]
      rw [frame_modifyFrame_self there, frame_modifyFrame_self there']
      exact kept (fills.frame g)
    · have absent' : ¬ t.HasFrame g := by rwa [HasFrame, ← fills.shape.frames]
      rw [frame_modifyFrame_absent there, frame_modifyFrame_absent absent']
      exact fills.frame g
  · rw [frame_modifyFrame_other same, frame_modifyFrame_other same]
    exact fills.frame g

theorem assign (fills : s.Fills patched t) (f : FrameRef) (x : Symbol) (v : Value) :
    (s.assign f x v).Fills patched (t.assign f x v) :=
  fills.modifyFrame f (fills.shape.modifyFrame f fun kept => kept.insert x v)
    fun kept => kept.insert x v

theorem assignAll (fills : s.Fills patched t) (f : FrameRef) (pairs : List (Symbol × Value)) :
    (s.assignAll f pairs).Fills patched (t.assignAll f pairs) :=
  fills.modifyFrame f (fills.shape.modifyFrame f fun kept => kept.insertAll pairs)
    fun kept => kept.insertAll pairs

end Store.Fills

/-! ## Outcomes -/

/-- Whatever one computation yields another yields too, and the states they end in are the same but
    for placeholders. -/
def Follows {α : Type} (patched : FrameRef) (r r' : EStateM.Result Halt Machine α) : Prop :=
  ∀ a m', r = .ok a m' → ∃ n', r' = .ok a n' ∧ m'.Fills patched n'

namespace Follows

variable {α β : Type} {patched : FrameRef} {m n : Machine}

theorem bind {x x' : EvalM β} {next next' : β → EvalM α} (first : Follows patched (x m) (x' n))
    (second : ∀ b m' n', m'.Fills patched n' → Follows patched (next b m') (next' b n')) :
    Follows patched ((x >>= next) m) ((x' >>= next') n) := by
  intro a m' done
  obtain ⟨b, m1, run, done⟩ := bind_eq_ok done
  obtain ⟨n1, run', fills⟩ := first b m1 run
  obtain ⟨n', done', fills'⟩ := second b m1 n1 fills a m' done
  exact ⟨n', (bind_ok run').trans done', fills'⟩

theorem ok (fills : m.Fills patched n) (a : α) : Follows patched (.ok a m) (.ok a n) := by
  rintro _ _ ⟨⟩
  exact ⟨n, rfl, fills⟩

/-- Nothing is asked of a computation if the other stops. -/
theorem error (h : Halt) (m : Machine) (r : EStateM.Result Halt Machine α) :
    Follows patched (.error h m) r := nofun

/-- The same check on both sides, and then computations of which one follows the other. -/
theorem check {r : Except Fault β} {next : β → EvalM α}
    (second : ∀ b, r = .ok b → Follows patched (next b m) (next b n)) :
    Follows patched ((Eval.ofExcept r >>= next) m) ((Eval.ofExcept r >>= next) n) := by
  cases r with
  | ok b => exact second b rfl
  | error c => exact error _ _ _

theorem ofExcept (fills : m.Fills patched n) (r : Except Fault α) :
    Follows patched (Eval.ofExcept r m) (Eval.ofExcept r n) := by
  cases r with
  | ok a => exact ok fills a
  | error c => exact error _ _ _

end Follows

/-! ## Elementary steps of evaluation -/

section
variable {patched : FrameRef} {m n : Machine} (fills : m.Fills patched n)
include fills

theorem Machine.Fills.mapStore {change change' : Store → Store}
    (changed : (change m.store).Fills patched (change' n.store)) :
    (m.mapStore change).Fills patched (n.mapStore change') :=
  ⟨changed, fills.stamps, fills.calls⟩

theorem freshStamp_follows : Follows patched (Eval.freshStamp m) (Eval.freshStamp n) := by
  have next : m.nextStamp.2.Fills patched n.nextStamp.2 :=
    ⟨fills.store, congrArg (· + 1) fills.stamps, fills.calls⟩
  show Follows patched (.ok (Stamp.mk m.stamps) m.nextStamp.2)
    (.ok (Stamp.mk n.stamps) n.nextStamp.2)
  rw [fills.stamps]
  exact .ok next _

theorem newList_follows (items : List Value) :
    Follows patched (Eval.newList items m) (Eval.newList items n) :=
  (freshStamp_follows fills).bind fun _ _ _ fills => .ok fills _

theorem extend_follows (env : EnvRef) (params : List Symbol) (args : List Value) :
    Follows patched (Eval.extend env params args m) (Eval.extend env params args n) := by
  refine .check fun fr _ => ?_
  have same : n.store.nextEnv = m.store.nextEnv := fills.store.shape.nextEnv.symm
  show Follows patched (.ok m.store.nextEnv (m.mapStore fun s => (s.extend env fr).2))
    (.ok n.store.nextEnv (n.mapStore fun s => (s.extend env fr).2))
  rw [same]
  exact .ok (fills.mapStore (fills.store.extend env fr)) _

theorem rebindHead_follows (env : EnvRef) (params : List Symbol) (args : List Value) :
    Follows patched (Eval.rebindHead env params args m) (Eval.rebindHead env params args n) := by
  rw [Eval.rebindHead_eq, Eval.rebindHead_eq, ← fills.store.shape.headFor]
  exact .check fun head _ => .ok (fills.mapStore (fills.store.assignAll head _)) _

theorem Machine.Fills.addRecord (r : Record) : (m.addRecord r).Fills patched (n.addRecord r) :=
  ⟨fills.store, fills.stamps, fills.calls⟩

theorem report_follows (r : Record) : Follows patched (Eval.report r m) (Eval.report r n) :=
  .ok (fills.addRecord r) _

theorem variable_follows (x : Symbol) (env : EnvRef) :
    Follows patched (Eval.variableValue x env m) (Eval.variableValue x env n) := by
  show Follows patched (Eval.ofExcept (m.store.lookup env x) m)
    (Eval.ofExcept (n.store.lookup env x) n)
  cases found : m.store.lookup env x with
  | ok v =>
    rw [fills.store.lookup found]
    exact .ok fills v
  | error c => exact .error _ _ _

/-! ## Primitives -/

theorem Unary.call_follows (f : Unary) (a : Value) :
    Follows patched (f.call a m) (f.call a n) := by
  cases f with
  | isNull => exact .ok fills _
  | car => exact .ofExcept fills _
  | cdr => exact .check fun parts _ => newList_follows fills parts.2

theorem Binary.compute_follows (f : Binary) (op : Number.Operation) (a b : Value) :
    Follows patched (compute f op a b m) (compute f op a b n) := by
  refine .check ?_
  rintro ⟨x, y⟩ _
  dsimp only
  cases op.apply x y with
  | number z => exact .ok fills _
  | undefined => exact (freshStamp_follows fills).bind fun _ _ _ fills => .ok fills _
  | tooLarge => exact .error _ _ _

theorem Binary.call_follows (room : Nat) (f : Binary) (a b : Value) :
    Follows patched (f.call room a b m) (f.call room a b n) := by
  cases f with
  | cons =>
    cases b with
    | list stamp items => exact newList_follows fills _
    | _ => exact .error _ _ _
  | add | sub | mul => exact compute_follows fills _ _ a b
  | gt | ge | lt | le => exact .ofExcept fills _
  | equal =>
    simp only [call, decideEqual]
    cases Value.equal? .apart room a b with
    | some answer => exact .ok fills _
    | none => exact .error _ _ _

theorem Op.noteCall_follows (room : Nat) (args : List Value) :
    Follows patched (noteCall room args m) (noteCall room args n) := by
  have count : Follows patched ((modifyGet Machine.countCall : EvalM Nat) m)
      ((modifyGet Machine.countCall : EvalM Nat) n) := by
    have next : m.countCall.2.Fills patched n.countCall.2 :=
      ⟨fills.store, fills.stamps, congrArg (· + 1) fills.calls⟩
    show Follows patched (.ok (m.calls + 1) m.countCall.2) (.ok (n.calls + 1) n.countCall.2)
    rw [fills.calls]
    exact .ok next _
  refine count.bind fun _ m1 n1 fills => .check fun texts _ => ?_
  have noted : (m1.addNote texts).Fills patched (n1.addNote texts) :=
    ⟨fills.store, fills.stamps, fills.calls⟩
  exact .ok noted _

theorem Op.call_follows (room : Nat) (op : Op) (args : List Value) :
    Follows patched (op.call room args m) (op.call room args n) := by
  unfold call
  split
  · exact Unary.call_follows fills _ _
  · exact Binary.call_follows fills room _ _ _
  · exact newList_follows fills _
  · split
    · exact noteCall_follows fills room _
    · exact .error _ _ _
  · exact .error _ _ _

end

/-! ## Evaluation -/

/-- An evaluator yields the same when placeholders have been filled. -/
def KeepsFollowing (patched : FrameRef) (ev : Evaluator) : Prop :=
  ∀ (e : Value) (env : EnvRef) (m n : Machine), m.Fills patched n →
    Follows patched (ev e env m) (ev e env n)

namespace KeepsFollowing

section
variable {room : Nat} {patched : FrameRef} {ev : Evaluator} {m n : Machine}
  (keeps : KeepsFollowing patched ev) (fills : m.Fills patched n) (env : EnvRef)
include keeps fills

theorem mapM (items : List Value) :
    Follows patched (items.mapM (ev · env) m) (items.mapM (ev · env) n) := by
  induction items generalizing m n with
  | nil => exact .ok fills _
  | cons e rest ih =>
    rw [List.mapM_cons]
    refine (keeps e env m n fills).bind fun v m1 n1 fills => ?_
    exact (ih fills).bind fun vs m2 n2 fills => .ok fills _

theorem apply (fn : Value) (args : List Value) :
    Follows patched (Eval.apply room ev fn args m) (Eval.apply room ev fn args n) := by
  cases fn with
  | primitive stamp op => exact Op.call_follows fills room op args
  | closure stamp params body captured =>
    exact (extend_follows fills captured params args).bind
      fun inner m1 n1 fills => keeps body inner m1 n1 fills
  | _ => exact .error _ _ _

theorem letRec (b : Form.Bindings) :
    Follows patched ((Phrase.letRec b).run room ev env m)
      ((Phrase.letRec b).run room ev env n) := by
  refine (extend_follows fills env b.params _).bind fun inner m1 n1 fills => ?_
  refine (keeps.mapM fills inner b.inits).bind fun values m2 n2 fills => ?_
  refine (rebindHead_follows fills inner b.params values).bind fun _ m3 n3 fills => ?_
  refine (report_follows fills _).bind fun _ m4 n4 fills => ?_
  exact keeps _ inner m4 n4 fills

theorem define (x : Symbol) (expr : Value) :
    Follows patched ((Phrase.define x expr).run room ev env m)
      ((Phrase.define x expr).run room ev env n) := by
  show Follows patched ((ev expr env >>= _) m) ((ev expr env >>= _) n)
  rw [← fills.store.shape.find?]
  refine (keeps expr env m n fills).bind fun v m1 n1 fills => ?_
  cases m.store.find? env x with
  | some f =>
    refine (report_follows fills _).bind fun _ m2 n2 fills => ?_
    exact .ok (fills.mapStore (fills.store.assign f x v)) _
  | none =>
    refine (report_follows fills _).bind fun _ m2 n2 fills => ?_
    exact .ok (fills.mapStore (fills.store.push env _)) _

theorem run (p : Phrase) : Follows patched (p.run room ev env m) (p.run room ev env n) := by
  cases p with
  | number x => exact .ok fills _
  | name x => exact variable_follows fills x env
  | application head args =>
    refine (keeps head env m n fills).bind fun fn m1 n1 fills => ?_
    refine (keeps.mapM fills env args).bind fun values m2 n2 fills => ?_
    exact keeps.apply fills fn values
  | lambda params body => exact (freshStamp_follows fills).bind fun _ _ _ fills => .ok fills _
  | letPlain b => exact keeps _ env m n fills
  | letRec b => exact keeps.letRec fills env b
  | branch condition consequent alternative =>
    refine (keeps condition env m n fills).bind fun v m1 n1 fills => ?_
    cases v.isTrue with
    | true => exact keeps consequent env m1 n1 fills
    | false => exact keeps alternative env m1 n1 fills
  | define x expr => exact keeps.define fills env x expr

end

end KeepsFollowing

/-- Whatever an evaluation yields it also yields when placeholders have been filled. -/
theorem eval_follows (room depth : Nat) (patched : FrameRef) :
    KeepsFollowing patched (eval room depth) := by
  induction depth with
  | zero => exact fun _ _ _ _ _ => .error _ _ _
  | succ depth keeps =>
    intro e env m n fills
    rw [eval_succ_eq_run]
    exact .check fun p _ => keeps.run fills env p

end FrameLisp
