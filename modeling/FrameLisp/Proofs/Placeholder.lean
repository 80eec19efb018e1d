import FrameLisp.Proofs.WellFormed

/-!
The placeholders of `letrec`. The names of a `letrec` are bound again in the frame at the head of
its environment. That is the frame which holds the placeholders, unless an initializer has defined
a new name and so put a frame in front of it: then the run is displaced, and the placeholders stay
(`eval_clean_iff`). Nothing else that evaluation does leaves a placeholder behind. Wherever it is
left, a placeholder is never more than what a name is bound to: it does not get into a value
(`eval_withholds_placeholders`).
-/
namespace FrameLisp

/-- No placeholder occurs in a value. -/
def Value.Assigned (v : Value) : Prop := ∀ part : Value, part.OccursIn v → part ≠ .unassigned

namespace Store

/-- A frame binds some name to a placeholder. -/
def Pending (s : Store) (f : FrameRef) : Prop := ∃ x, s.Binds f x .unassigned

/-- Placeholders are bound to names, if at all, and never occur deeper inside a value. -/
def Shallow (s : Store) : Prop := ∀ f x v, s.Binds f x v → v ≠ .unassigned → v.Assigned

/-- No placeholder occurs in any frame. -/
def Clean (s : Store) : Prop := ∀ f x v, s.Binds f x v → v.Assigned

theorem clean_iff {s : Store} : s.Clean ↔ s.Shallow ∧ ∀ f, ¬ s.Pending f := by
  constructor
  · intro clean
    refine ⟨fun f x v binds _ => clean f x v binds, ?_⟩
    rintro f ⟨x, binds⟩
    exact clean f x _ binds _ .self rfl
  · rintro ⟨shallow, settled⟩ f x v binds
    refine shallow f x v binds ?_
    rintro rfl
    exact settled f ⟨x, binds⟩

end Store

/-! ## Displaced runs -/

section
variable {room depth : Nat} {e : Value} {env : EnvRef} {m m' : Machine}

/-- The frame that `letrec` makes for its names. -/
def LetRecOpening.frame (_ : LetRecOpening e env m) : FrameRef := m.store.nextFrame

/-- The initializers have put frames in front of the one that was made for the names. -/
def LetRecRun.Displaced (run : LetRecRun room depth e env m) : Prop :=
  run.initialized.store.chain run.inner ≠ run.opened.store.chain run.inner

theorem LetRecOpening.chain_inner (run : LetRecOpening e env m) :
    run.opened.store.chain run.inner = run.frame :: m.store.chain env :=
  (fixes_of_extend run.entry).2.2.2

/-- The frame made for the names is there, and binds them and no others. -/
theorem LetRecOpening.frame_opened (run : LetRecOpening e env m) :
    run.opened.store.HasFrame run.frame ∧
      ∀ x, x ∈ (run.opened.store.frame run.frame).names ↔ x ∈ run.bindings.params := by
  obtain ⟨fr, bound, _, same⟩ := Eval.extend_eq_ok run.entry
  rw [same]
  refine ⟨?_, fun x => ?_⟩
  · simp [Store.HasFrame, Machine.mapStore, Store.frames_size_extend, frame, Store.nextFrame]
  · show x ∈ ((m.store.extend env fr).2.frame m.store.nextFrame).names ↔ _
    rw [Store.frame_extend, if_pos rfl]
    exact Frame.mem_names_of_bind bound

/-- The frame at the head is the one that was made for the names, unless the run is displaced. -/
theorem LetRecRun.head_eq_frame_iff (run : LetRecRun room depth e env m) {head : FrameRef}
    {rest : Chain} (chain : run.initialized.store.chain run.inner = head :: rest) :
    head = run.frame ↔ ¬ run.Displaced := by
  obtain ⟨new, grown, each⟩ := run.grows.pushed (fixes_of_extend run.entry).2.2.1
  rw [Displaced, not_not]
  cases new with
  | nil =>
    have same : run.initialized.store.chain run.inner = run.opened.store.chain run.inner := grown
    refine iff_of_true ?_ same
    rw [same, run.chain_inner] at chain
    exact (List.cons.inj chain).1.symm
  | cons first others =>
    have fresh := (each first List.mem_cons_self).1
    have isFirst : first = head := (List.cons.inj (grown.symm.trans chain)).1
    refine iff_of_false ?_ ?_
    · rintro rfl
      exact fresh (isFirst ▸ run.frame_opened.1)
    · intro same
      rw [same] at grown
      exact absurd (List.self_eq_append_left.mp grown) (List.cons_ne_nil _ _)

/-- Binding the names again removes the placeholders of a run exactly if it is not displaced. -/
theorem LetRecRun.pending_frame_iff (run : LetRecRun room depth e env m)
    (assigned : ∀ v ∈ run.values, v ≠ .unassigned)
    (rebound : Eval.rebindHead run.inner run.bindings.params run.values run.initialized =
      .ok () m') :
    m'.store.Pending run.frame ↔ run.Displaced ∧ run.initialized.store.Pending run.frame := by
  obtain ⟨head, rest, lengths, chain, rfl⟩ := Eval.rebindHead_eq_ok rebound
  have isHead := run.head_eq_frame_iff chain
  constructor
  · rintro ⟨x, binds⟩
    rcases Store.binds_assignAll binds with ⟨binds, others⟩ | ⟨_, member⟩
    · refine ⟨?_, x, binds⟩
      by_contra settled
      -- The frame binds the names of the form only, and each of them has got its value.
      have name : x ∈ (run.opened.store.frame run.frame).names := by
        rw [← run.grows.names run.frame run.frame_opened.1]
        exact Frame.mem_names_iff.mpr ⟨_, binds⟩
      refine others (isHead.mpr settled).symm ?_
      rw [List.map_fst_zip (Nat.le_of_eq lengths)]
      exact (run.frame_opened.2 x).mp name
    · exact absurd rfl (assigned _ (List.of_mem_zip member).2)
  · rintro ⟨displaced, x, binds⟩
    have apart : run.frame ≠ head := fun same => isHead.mp same.symm displaced
    refine ⟨x, ?_⟩
    show (run.initialized.store.assignAll head _).Binds run.frame x .unassigned
    rw [Store.Binds, Store.assignAll, Store.frame_modifyFrame_other apart]
    exact binds

end

/-- A displaced run of `letrec` during an evaluation made the frame. -/
def Call.Displaces (room : Nat) (root : Call) (f : FrameRef) : Prop :=
  ∃ depth e env m, ∃ run : LetRecRun room depth e env m,
    Call.Visits room root ⟨depth + 1, e, env, m⟩ ∧ run.Displaced ∧ run.frame = f

/-! ## Evaluation -/

section
variable {s t : Store} {env : EnvRef} {f : FrameRef} {x : Symbol} {v : Value}

theorem Store.Pending.of_binds (pending : t.Pending f)
    (bound : ∀ f x v, t.Binds f x v → s.Binds f x v ∨ v.Assigned) : s.Pending f := by
  obtain ⟨x, binds⟩ := pending
  rcases bound f x _ binds with binds | assigned
  · exact ⟨x, binds⟩
  · exact absurd rfl (assigned _ .self)

theorem pending_of_assign (assigned : v.Assigned) {g : FrameRef}
    (pending : (s.assign f x v).Pending g) : s.Pending g := by
  refine pending.of_binds fun g y w binds => ?_
  rcases Store.binds_assign binds with binds | ⟨_, _, rfl⟩
  · exact .inl binds
  · exact .inr assigned

theorem pending_of_push (assigned : v.Assigned) {g : FrameRef}
    (pending : (s.push env (Frame.ofPairs [(x, v)])).Pending g) : s.Pending g := by
  refine pending.of_binds fun g y w binds => ?_
  rcases Store.binds_push binds with binds | ⟨_, rfl⟩
  · exact .inl binds
  · exact .inr assigned

end

section
variable {e : Value} {env inner : EnvRef} {m m' : Machine} {f : FrameRef} {x : Symbol} {v : Value}
  {params : List Symbol} {args : List Value}

theorem binds_or_assigned_of_extend (assigned : ∀ a ∈ args, a.Assigned)
    (entry : Eval.extend env params args m = .ok inner m') (binds : m'.store.Binds f x v) :
    m.store.Binds f x v ∨ v.Assigned := by
  rcases Eval.binds_of_extend entry binds with binds | ⟨_, member⟩
  · exact .inl binds
  · exact .inr (assigned v member)

theorem LetRecOpening.binds_opened (run : LetRecOpening e env m)
    (binds : run.opened.store.Binds f x v) :
    m.store.Binds f x v ∨ f = run.frame ∧ v = .unassigned := by
  rcases Eval.binds_of_extend run.entry binds with binds | ⟨here, member⟩
  · exact .inl binds
  · obtain ⟨_, _, rfl⟩ := List.mem_map.mp member
    exact .inr ⟨here, rfl⟩

end

/-- The frames that hold placeholders are those that did at first, and those of displaced runs. -/
def assignment (room : Nat) (root : Call) : Discipline room where
  Inv m := m.store.Shallow
  Part _ v := v ≠ .unassigned
  Moves _ m m' := ∀ f, m'.store.Pending f → m.store.Pending f ∨ root.Displaces room f
  Admits c := Call.Visits room root c
  Stops _ := True
  onHalt := False
  moves_refl _ _ _ := .inl
  moves_trans first second f pending := (second f pending).elim (first f) .inr
  part_moves _ assigned := assigned
  part_made := by
    rintro m v made rfl
    cases made
  part_unit := Value.noConfusion
  inv_quiet quiet shallow := quiet.store ▸ shallow
  moves_quiet quiet f pending := .inl (quiet.store ▸ pending)
  stops_bound _ := trivial
  unbound _ _ _ := trivial
  lookup shallow _ _ found assigned := by
    obtain ⟨f, _, binds⟩ := Store.binding?_eq_some found
    exact shallow f _ _ binds assigned
  lambda _ _ _ := Value.noConfusion
  operand visited phrase turn _ := visited.tail (.operand phrase turn)
  body call visited _ _ := visited.tail (.body call)
  enter shallow _ assigned entry := Store.HoldsOnly.of_extend shallow assigned entry
  leave assigned entry moves f pending := (moves f pending).imp_left
    (·.of_binds fun f x v => binds_or_assigned_of_extend assigned entry)
  letPlain visited phrase := visited.tail (.letPlain phrase)
  condition visited phrase := visited.tail (.condition phrase)
  branch visited phrase done _ := visited.tail (.branch phrase done)
  define visited phrase := visited.tail (.define phrase)
  assign _ _ _ _ _ _ shallow assigned :=
    ⟨Store.HoldsOnly.assign shallow assigned, fun _ pending =>
      .inl (pending_of_assign assigned pending)⟩
  push _ _ _ _ _ shallow assigned :=
    ⟨Store.HoldsOnly.push shallow assigned, fun _ pending =>
      .inl (pending_of_push assigned pending)⟩
  opening run _ shallow := Store.HoldsOnly.of_opening shallow run
  initializer run visited turn _ := visited.tail (.initializer run turn)
  abandon _ looked := looked.elim
  rebind _ _ _ shallow assigned rebound := Store.HoldsOnly.of_rebindHead shallow assigned rebound
  letRec run visited _ rebound := visited.tail (.letRec run rebound)
  close run visited moves assigned rebound last f pending := by
    have values : ∀ v ∈ run.values, v ≠ .unassigned := fun v member => assigned v member v .self
    rcases last f pending with pending | left
    · by_cases own : f = run.frame
      · subst own
        have displaced := ((run.pending_frame_iff values rebound).mp pending).1
        exact .inr ⟨_, _, _, _, run, visited, displaced, rfl⟩
      · obtain ⟨y, binds⟩ := pending
        have before : run.initialized.store.Binds f y .unassigned :=
          (Eval.binds_of_rebindHead rebound binds).resolve_right fun member =>
            values _ member rfl
        rcases moves f ⟨y, before⟩ with ⟨x, binds⟩ | left
        · rcases run.binds_opened binds with binds | ⟨here, _⟩
          · exact .inl ⟨x, binds⟩
          · exact absurd here own
        · exact .inr left
    · exact .inr left

/-- An evaluation that starts without placeholders and yields a value leaves none exactly if none is
    left in the frames of displaced runs; and a run that gets to bind its names again keeps
    placeholders in the frame made for them exactly if it is displaced and had some there. -/
theorem eval_clean_iff (room depth : Nat) {e v : Value} {env : EnvRef} {m m' : Machine}
    (clean : m.store.Clean) (done : eval room depth e env m = .ok v m') :
    (m'.store.Clean ↔ ∀ f, Call.Displaces room ⟨depth, e, env, m⟩ f → ¬ m'.store.Pending f) ∧
      ∀ depth' e' env' n n' (run : LetRecRun room depth' e' env' n),
        Call.Visits room ⟨depth, e, env, m⟩ ⟨depth' + 1, e', env', n⟩ →
        Eval.rebindHead run.inner run.bindings.params run.values run.initialized = .ok () n' →
        (n'.store.Pending run.frame ↔
          run.Displaced ∧ run.initialized.store.Pending run.frame) := by
  let D := assignment room ⟨depth, e, env, m⟩
  obtain ⟨shallow, settled⟩ := Store.clean_iff.mp clean
  constructor
  · have meets := D.sound depth e env m shallow .refl
    rw [done] at meets
    obtain ⟨shallow', moves, -⟩ := meets
    rw [Store.clean_iff]
    constructor
    · intro clean' f _
      exact clean'.2 f
    · intro left
      refine ⟨shallow', fun f pending => ?_⟩
      rcases moves f pending with before | displaced
      · exact settled f before
      · exact left f displaced pending
  · intro depth' e' env' n n' run visited rebound
    obtain ⟨inv, admits⟩ := D.visits visited shallow .refl
    obtain ⟨-, -, goods⟩ := D.initialized run inv admits
    exact run.pending_frame_iff (fun v member => goods v member v .self) rebound

theorem clean_newGlobal : Machine.empty.newGlobal.2.store.Clean := by
  intro f x v binds part inside
  rcases binds_newGlobal binds with binds | ⟨_, plain⟩
  · cases binds
  · rcases plain part inside with made | ⟨stamp, op, _, rfl⟩
    · rintro rfl
      cases made
    · exact Value.noConfusion

/-- `(letrec ((a (define b 1))) a)`, whose initializer puts a frame for `b` in front of that of
    `a`. -/
def displacing : Value :=
  .list ⟨1⟩ [.symbol ⟨"letrec"⟩,
    .list ⟨2⟩ [.list ⟨3⟩ [.symbol ⟨"a"⟩,
      .list ⟨4⟩ [.symbol ⟨"define"⟩, .symbol ⟨"b"⟩, .number (.int 1)]]],
    .symbol ⟨"a"⟩]

private theorem pending_displacing :
    ∃ v m', eval 20 20 displacing Machine.empty.newGlobal.1 Machine.empty.newGlobal.2 = .ok v m' ∧
      m'.store.Pending ⟨3⟩ :=
  ⟨_, _, rfl, ⟨"a"⟩, rfl⟩

/-- The placeholder that stays lies in the frame of a displaced run. -/
theorem eval_clean_iff_displacing :
    Machine.empty.newGlobal.2.store.Clean ∧ ∃ v m' f,
      eval 20 20 displacing Machine.empty.newGlobal.1 Machine.empty.newGlobal.2 = .ok v m' ∧
      Call.Displaces 20 ⟨20, displacing, Machine.empty.newGlobal.1, Machine.empty.newGlobal.2⟩ f ∧
      m'.store.Pending f := by
  obtain ⟨v, m', done, pending⟩ := pending_displacing
  have dirty : ¬ m'.store.Clean := fun clean => (Store.clean_iff.mp clean).2 _ pending
  rw [(eval_clean_iff 20 20 clean_newGlobal done).1] at dirty
  simp only [not_forall, not_not, exists_prop] at dirty
  obtain ⟨f, displaced, pending⟩ := dirty
  exact ⟨clean_newGlobal, v, m', f, done, displaced, pending⟩

/-- Evaluation can leave a placeholder where there was none. -/
theorem eval_leaves_placeholder :
    ¬ ∀ room depth e env m v m', (∀ f, ¬ m.store.Pending f) →
      eval room depth e env m = .ok v m' → ∀ f, ¬ m'.store.Pending f := by
  intro none
  obtain ⟨v, m', done, pending⟩ := pending_displacing
  exact none 20 20 _ _ _ v m' (Store.clean_iff.mp clean_newGlobal).2 done _ pending

/-! ## Placeholders that stay where they are bound -/

/-- Placeholders are bound to names, if at all, and none occurs in a value, however an evaluation
    ends. -/
def withholding (room : Nat) : Discipline room :=
  .ofKind room (· ≠ .unassigned)
    (by
      rintro v made rfl
      cases made)
    Value.noConfusion (fun _ _ _ _ => Value.noConfusion)

/-- Where placeholders are bound to names only, they stay so however an evaluation ends, whatever
    its expression holds: none occurs in its value, in a function or an argument that is handed
    over on the way, or in what a definition or a `letrec` gives to a name. -/
theorem eval_withholds_placeholders (room depth : Nat) (e : Value) (env : EnvRef) {m : Machine}
    (shallow : m.store.Shallow) :
    (stateAfter (eval room depth e env m)).store.Shallow ∧
      (∀ v m', eval room depth e env m = .ok v m' → v.Assigned) ∧
      ∀ depth' e' env' n, Call.Visits room ⟨depth, e, env, m⟩ ⟨depth' + 1, e', env', n⟩ →
        (∀ app : Application room depth' e' env' n, ∀ a ∈ app.fn :: app.values, a.Assigned) ∧
        (∀ run : DefineRun room depth' e' env' n, run.value.Assigned) ∧
        ∀ run : LetRecRun room depth' e' env' n, ∀ v ∈ run.values, v.Assigned := by
  let D := withholding room
  have meets := D.sound depth e env m shallow trivial
  refine ⟨(D.state trivial meets).1, ?_, ?_⟩
  · intro v m' done
    rw [done] at meets
    exact meets.2.2
  · intro depth' e' env' n visited
    obtain ⟨inv, admits⟩ := D.visits visited shallow trivial
    refine ⟨fun app => ?_, fun run => ?_, fun run => ?_⟩
    · exact (D.applied app inv admits).2.2
    · exact (D.computed run inv admits).2.2
    · exact (D.initialized run inv admits).2.2

/-- A global environment with a frame in front in which the initializer of `a` has not finished. -/
def unfinished : Machine :=
  Machine.empty.newGlobal.2.mapStore
    (·.push Machine.empty.newGlobal.1 (Frame.ofPairs [(⟨"a"⟩, .unassigned)]))

/-- The function `(lambda () a)` can be put into a list while `a` is a placeholder, and so can one
    whose body is a placeholder; the list has none in it. -/
theorem eval_withholds_placeholders_unfinished :
    let early : Value := .list ⟨1⟩ [.symbol ⟨"lambda"⟩, .list ⟨2⟩ [], .symbol ⟨"a"⟩]
    let odd : Value := .list ⟨3⟩ [.symbol ⟨"lambda"⟩, .list ⟨4⟩ [], .unassigned]
    let e : Value := .list ⟨5⟩ [.symbol ⟨"list"⟩, early, odd]
    let env := Machine.empty.newGlobal.1
    unfinished.store.Shallow ∧ unfinished.store.Pending ⟨3⟩ ∧
      ∃ v m', eval 20 20 e env unfinished = .ok v m' ∧ v.Assigned ∧ m'.store.Shallow ∧
        m'.store.Pending ⟨3⟩ := by
  intro early odd e env
  have shallow : unfinished.store.Shallow := by
    refine Store.HoldsOnly.of_binds (Store.clean_iff.mp clean_newGlobal).1 fun f x v binds => ?_
    rcases Store.binds_push binds with binds | ⟨_, same⟩
    · exact .inl binds
    · exact .inr (.inl same)
  have done : ∃ v m', eval 20 20 e env unfinished = .ok v m' ∧ m'.store.Pending ⟨3⟩ :=
    ⟨_, _, rfl, ⟨"a"⟩, rfl⟩
  obtain ⟨v, m', done, pending⟩ := done
  obtain ⟨kept, value, -⟩ := eval_withholds_placeholders 20 20 e env shallow
  rw [done] at kept
  exact ⟨shallow, ⟨⟨"a"⟩, rfl⟩, v, m', done, value v m' done, kept, pending⟩

end FrameLisp
