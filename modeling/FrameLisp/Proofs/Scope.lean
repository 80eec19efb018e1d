import FrameLisp.Proofs.WellFormed

/-!
Scope. `freeNames` collects the names that an expression refers to without binding them itself. An
expression whose free names are all seen by its environment is never refused for an unbound
variable, if the same holds of the closures around; and it holds of the closures that it makes
(`eval_scoped`).
-/
namespace FrameLisp

/-! ## Free names -/

/-- Names, less those that are bound. -/
def without (names bound : List Symbol) : List Symbol := names.filter (· ∉ bound)

theorem mem_without {names bound : List Symbol} {x : Symbol} :
    x ∈ without names bound ↔ x ∈ names ∧ x ∉ bound := by
  simp [without]

mutual
/-- The names that an expression refers to and does not bind itself. -/
def freeNames : Value → List Symbol
  | .symbol x => [x]
  | .list _ items => freeInSequence items
  | .tuple _ items => freeInSequence items
  | _ => []

/-- The free names of a sequence. A keyword at its head is no reference. -/
def freeInSequence : List Value → List Symbol
  | [] => []
  | head :: tail =>
    match Eval.keyword? head with
    | some k => freeInForm k tail
    | none => freeNames head ++ freeInAll tail

/-- The free names of a special form; a malformed one has none. -/
def freeInForm : Keyword → List Value → List Symbol
  | .lambda, [params, body] =>
    match Form.checkParams Keyword.lambda.name params with
    | .ok names => without (freeNames body) names
    | .error _ => []
  | .letPlain, [.list stamp bindings, body] =>
    match Form.splitBindings Keyword.letPlain.name [.list stamp bindings, body] with
    | .ok b => freeInInits bindings ++ without (freeNames body) b.params
    | .error _ => []
  | .letRec, [.list stamp bindings, body] =>
    match Form.splitBindings Keyword.letRec.name [.list stamp bindings, body] with
    | .ok b => without (freeInInits bindings ++ freeNames body) b.params
    | .error _ => []
  | .branch, [condition, consequent, alternative] =>
    freeNames condition ++ freeNames consequent ++ freeNames alternative
  | .define, [.symbol _, expr] => freeNames expr
  | .define, [.list _ (.symbol _ :: params), body] =>
    match Form.checkParams Keyword.lambda.name (.list .transient params) with
    | .ok names => without (freeNames body) names
    | .error _ => []
  | _, _ => []

def freeInAll : List Value → List Symbol
  | [] => []
  | e :: rest => freeNames e ++ freeInAll rest

/-- The free names of the initializers in some bindings. -/
def freeInInits : List Value → List Symbol
  | [] => []
  | .list _ [_, init] :: rest => freeNames init ++ freeInInits rest
  | _ :: rest => freeInInits rest
end

theorem freeInAll_eq (es : List Value) : freeInAll es = es.flatMap freeNames := by
  induction es with
  | nil => rfl
  | cons e rest ih => rw [freeInAll, ih, List.flatMap_cons]

theorem freeInInits_eq {form : String} {bindings : List Value} {pairs : List (Value × Value)}
    (each : bindings.mapM (Form.splitBinding form) = .ok pairs) :
    freeInInits bindings = (pairs.map Prod.snd).flatMap freeNames := by
  induction bindings generalizing pairs with
  | nil =>
    cases each
    rfl
  | cons binding rest ih =>
    obtain ⟨stamp, name, init, others, rfl, later, rfl⟩ := Form.splitBinding_cons_eq_ok each
    rw [freeInInits, ih later, List.map_cons, List.flatMap_cons]

namespace Phrase

/-- The free names of what an expression says. -/
def free : Phrase → List Symbol
  | .number _ => []
  | .name x => [x]
  | .application head args => freeNames head ++ args.flatMap freeNames
  | .lambda params body => without (freeNames body) params
  | .letPlain b => b.inits.flatMap freeNames ++ without (freeNames b.body) b.params
  | .letRec b => without (b.inits.flatMap freeNames ++ freeNames b.body) b.params
  | .branch condition consequent alternative =>
    freeNames condition ++ freeNames consequent ++ freeNames alternative
  | .define _ expr => freeNames expr

private theorem freeInForm_eq {k : Keyword} {tail : List Value} {p : Phrase}
    (phrase : ofForm k tail = .ok p) : freeInForm k tail = p.free := by
  unfold ofForm at phrase
  split at phrase
  · obtain ⟨names, checked, rfl⟩ := map_eq_ok phrase
    simp only [freeInForm, checked, free]
  · cases phrase
  · obtain ⟨b, split, rfl⟩ := map_eq_ok phrase
    obtain ⟨stamp, bindings, rfl, each, lengths, _⟩ := Form.splitBindings_eq_ok split
    rw [freeInForm, split, free, freeInInits_eq each, List.map_snd_zip (by simp [lengths])]
  · obtain ⟨b, split, rfl⟩ := map_eq_ok phrase
    obtain ⟨stamp, bindings, rfl, each, lengths, _⟩ := Form.splitBindings_eq_ok split
    rw [freeInForm, split, free, freeInInits_eq each, List.map_snd_zip (by simp [lengths])]
  · cases phrase
    rfl
  · cases phrase
  · obtain ⟨⟨x, expr⟩, split, rfl⟩ := map_eq_ok phrase
    unfold Form.splitDefine at split
    split at split
    · split at split
      · cases split
        rfl
      · cases split
        rfl
      · cases split
      · cases split
    · cases split

private theorem freeInSequence_eq {items : List Value} {p : Phrase}
    (phrase : ofItems items = .ok p) : freeInSequence items = p.free := by
  cases items with
  | nil => cases phrase
  | cons head tail =>
    rw [freeInSequence]
    simp only [ofItems] at phrase
    cases word : Eval.keyword? head with
    | none =>
      rw [word] at phrase
      cases phrase
      rw [free, freeInAll_eq]
    | some k =>
      rw [word] at phrase
      exact freeInForm_eq phrase

/-- The free names of an expression are those of what it says. -/
theorem freeNames_eq {e : Value} {p : Phrase} (phrase : of e = .ok p) : freeNames e = p.free := by
  cases e with
  | list stamp items => exact freeInSequence_eq phrase
  | tuple stamp items => exact freeInSequence_eq phrase
  | number x =>
    cases phrase
    rfl
  | symbol x =>
    cases phrase
    rfl
  | _ => cases phrase

end Phrase

section
variable {b : Form.Bindings} {x : Symbol}

/-- A form that binds names and the application that it stands for refer to the same names, but for
    a name that initializers may refer to in the form only. -/
theorem mem_freeNames_application (distinct : b.params.Nodup)
    (free : x ∈ freeNames (Form.application b)) :
    x ∈ b.inits.flatMap freeNames ∨ x ∈ without (freeNames b.body) b.params := by
  rw [Phrase.freeNames_eq (Phrase.of_application b), Phrase.free,
    Phrase.freeNames_eq (Phrase.of_functionOf distinct b.body), Phrase.free] at free
  exact (List.mem_append.mp free).symm

end

/-! ## Names that are seen -/

/-- A name is seen by an environment if one of its frames binds it. -/
def Store.Sees (s : Store) (env : EnvRef) (x : Symbol) : Prop :=
  ∃ f ∈ s.chain env, x ∈ (s.frame f).names

/-- What the body of a closure refers to is among its parameters or seen by its environment. -/
def Store.Covers (s : Store) : Value → Prop :=
  Value.WhenClosure fun params body env => ∀ x ∈ freeNames body, x ∉ params → s.Sees env x

/-- All closures that occur in the values of frames are covered. -/
def Store.Scoped (s : Store) : Prop :=
  ∀ f x v, s.Binds f x v → ∀ part : Value, part.OccursIn v → s.Covers part

/-- Every environment sees what it saw before. -/
def Widens (s t : Store) : Prop := ∀ env x, s.Sees env x → t.Sees env x

section
variable {s t u : Store} {env inner : EnvRef} {f : FrameRef} {x : Symbol} {v : Value}

theorem Widens.trans (first : Widens s t) (second : Widens t u) : Widens s u :=
  fun env x seen => second env x (first env x seen)

theorem Store.Covers.mono (covers : s.Covers v) (widens : Widens s t) : t.Covers v :=
  Value.WhenClosure.mono covers fun _ _ env seen x free other =>
    widens env x (seen x free other)

theorem Store.hasEnv_of_sees (seen : s.Sees env x) : s.HasEnv env := by
  obtain ⟨f, member, _⟩ := seen
  by_contra absent
  rw [chain_of_not_hasEnv absent] at member
  cases member

theorem Store.binding?_of_sees (seen : s.Sees env x) : s.binding? env x ≠ none := by
  obtain ⟨f, member, bound⟩ := seen
  intro absent
  exact binding?_eq_none.mp absent f member bound

theorem Grows.widens (grows : Grows inner s t) : Widens s t := by
  intro env x seen
  have there := Store.hasEnv_of_sees seen
  obtain ⟨f, member, bound⟩ := seen
  refine ⟨f, ?_, ?_⟩
  · by_cases same : env = inner
    · subst same
      obtain ⟨new, chain, _⟩ := grows.pushed there
      rw [chain]
      exact List.mem_append_right new member
    · rw [grows.others env there same]
      exact member
  · rw [grows.names f (Store.hasFrame_of_mem_names bound)]
    exact bound

theorem Fixes.widens (fixes : Fixes s t) : Widens s t :=
  (fixes.grows : Grows s.nextEnv s t).widens

theorem widens_modifyFrame {change : Frame → Frame}
    (kept : ∀ fr : Frame, ∀ x ∈ fr.names, x ∈ (change fr).names) :
    Widens s (s.modifyFrame f change) := by
  rintro env x ⟨g, member, bound⟩
  refine ⟨g, member, ?_⟩
  rcases Store.frame_modifyFrame s f g change with same | ⟨_, _, changed⟩
  · rw [same]
    exact bound
  · rw [changed]
    exact kept _ x bound

theorem Store.Scoped.of_widens (closures : s.Scoped) (widens : Widens s t)
    (covered : ∀ f x v, t.Binds f x v → s.Binds f x v ∨
      ∀ part : Value, part.OccursIn v → s.Covers part) : t.Scoped := by
  intro f x v binds part inside
  rcases covered f x v binds with binds | covers
  · exact (closures f x v binds part inside).mono widens
  · exact (covers part inside).mono widens

theorem scoped_assign (closures : s.Scoped)
    (covered : ∀ part : Value, part.OccursIn v → s.Covers part) :
    (s.assign f x v).Scoped ∧ Widens s (s.assign f x v) := by
  have widens : Widens s (s.assign f x v) :=
    widens_modifyFrame fun fr y bound => Frame.mem_names_insert.mpr (.inr bound)
  refine ⟨closures.of_widens widens ?_, widens⟩
  intro g y w binds
  rcases Store.binds_assign binds with binds | ⟨_, _, rfl⟩
  · exact .inl binds
  · exact .inr covered

theorem scoped_push (closures : s.Scoped)
    (covered : ∀ part : Value, part.OccursIn v → s.Covers part) :
    (s.push env (Frame.ofPairs [(x, v)])).Scoped ∧
      Widens s (s.push env (Frame.ofPairs [(x, v)])) := by
  have widens := (grows_push s env x v).widens
  refine ⟨closures.of_widens widens ?_, widens⟩
  intro g y w binds
  rcases Store.binds_push binds with binds | ⟨_, rfl⟩
  · exact .inl binds
  · exact .inr covered

end

section
variable {m m' : Machine} {env inner : EnvRef} {params : List Symbol} {args : List Value}

/-- An environment made for a call sees the names that are bound for it and all that the environment
    behind it sees. -/
theorem sees_of_extend {x : Symbol} (entry : Eval.extend env params args m = .ok inner m')
    (known : x ∉ params → m.store.Sees env x) : m'.store.Sees inner x := by
  have opened := (fixes_of_extend entry).2.2.2
  by_cases own : x ∈ params
  · obtain ⟨fr, bound, rfl, rfl⟩ := Eval.extend_eq_ok entry
    refine ⟨m.store.nextFrame, opened ▸ List.mem_cons_self, ?_⟩
    show x ∈ ((m.store.extend env fr).2.frame m.store.nextFrame).names
    rw [Store.frame_extend, if_pos rfl]
    exact (Frame.mem_names_of_bind bound).mpr own
  · obtain ⟨f, member, bound⟩ := known own
    refine ⟨f, opened ▸ List.mem_cons_of_mem _ member, ?_⟩
    rw [(fixes_of_extend entry).1.names f (Store.hasFrame_of_mem_names bound)]
    exact bound

theorem scoped_of_extend (closures : m.store.Scoped)
    (covered : ∀ a ∈ args, ∀ part : Value, part.OccursIn a → m.store.Covers part)
    (entry : Eval.extend env params args m = .ok inner m') : m'.store.Scoped := by
  have widens : Widens m.store m'.store := (fixes_of_extend entry).1.widens
  refine closures.of_widens widens ?_
  intro g x v binds
  rcases Eval.binds_of_extend entry binds with binds | ⟨_, member⟩
  · exact .inl binds
  · exact .inr (covered v member)

/-- Wherever they land, names that are bound again are added to those that are seen. -/
theorem widens_of_rebindHead (rebound : Eval.rebindHead env params args m = .ok () m') :
    Widens m.store m'.store := by
  obtain ⟨head, _, _, _, rfl⟩ := Eval.rebindHead_eq_ok rebound
  exact widens_modifyFrame fun fr x bound => (Frame.mem_names_insertAll _ fr x).mpr (.inr bound)

end

/-! ## Evaluation -/

section
variable {depth : Nat} {e : Value} {env : EnvRef} {m : Machine}

/-- The environment of a call sees all that its expression refers to. -/
def Call.Scoped (c : Call) : Prop := ∀ x ∈ freeNames c.expr, c.machine.store.Sees c.env x

theorem Call.scoped_of_phrase {p : Phrase} (scope : Call.Scoped ⟨depth, e, env, m⟩)
    (phrase : Phrase.of e = .ok p) : ∀ x ∈ p.free, m.store.Sees env x := by
  intro x free
  exact scope x (Phrase.freeNames_eq phrase ▸ free)

theorem sees_of_opening (run : LetRecOpening e env m) {x : Symbol}
    (scope : Call.Scoped ⟨depth, e, env, m⟩)
    (free : x ∈ run.bindings.inits.flatMap freeNames ∨ x ∈ freeNames run.bindings.body) :
    run.opened.store.Sees run.inner x := by
  refine sees_of_extend run.entry fun other => ?_
  refine Call.scoped_of_phrase scope run.phrase x ?_
  rw [Phrase.free, mem_without, List.mem_append]
  exact ⟨free, other⟩

end

/-- No name is met that is not seen. -/
def scoping (room : Nat) : Discipline room where
  Inv m := m.store.Scoped
  Part m v := m.store.Covers v
  Moves _ m m' := Widens m.store m'.store
  Admits := Call.Scoped
  Stops := Halt.Bound
  onHalt := True
  moves_refl _ _ _ _ seen := seen
  moves_trans := Widens.trans
  part_moves widens covers := covers.mono widens
  part_made := Value.whenClosure_of_isMade
  part_unit := Value.whenClosure_unit
  inv_quiet quiet closures := quiet.store ▸ closures
  moves_quiet quiet env x seen := quiet.store ▸ seen
  stops_bound bound := bound
  unbound scope phrase absent := by
    have seen := Call.scoped_of_phrase scope phrase _ (List.mem_singleton.mpr rfl)
    exact absurd absent (Store.binding?_of_sees seen)
  lookup closures _ _ found _ := by
    obtain ⟨f, _, binds⟩ := Store.binding?_eq_some found
    exact closures f _ _ binds
  lambda _ scope phrase := by
    rintro stamp params body env ⟨⟩ x free other
    refine Call.scoped_of_phrase scope phrase x ?_
    rw [Phrase.free, mem_without]
    exact ⟨free, other⟩
  operand scope phrase turn widens x free := by
    refine widens _ x (Call.scoped_of_phrase scope phrase x ?_)
    rw [Phrase.free, ← List.flatMap_cons, List.mem_flatMap]
    exact ⟨_, turn.mem, free⟩
  body call _ _ covers x free := by
    refine sees_of_extend call.entry fun other => ?_
    exact covers _ _ _ _ rfl x free other
  enter closures _ covered entry := scoped_of_extend closures covered entry
  leave _ entry widens := (fixes_of_extend entry).1.widens.trans widens
  letPlain scope phrase x free := by
    obtain ⟨distinct, _⟩ := Phrase.shaped_of phrase
    refine Call.scoped_of_phrase scope phrase x ?_
    rw [Phrase.free, List.mem_append]
    exact mem_freeNames_application distinct free
  condition scope phrase x free := by
    refine Call.scoped_of_phrase scope phrase x ?_
    simp only [Phrase.free, List.mem_append]
    exact .inl (.inl free)
  branch scope phrase _ widens x free := by
    refine widens _ x (Call.scoped_of_phrase scope phrase x ?_)
    simp only [Phrase.free, List.mem_append]
    split at free
    · exact .inl (.inr free)
    · exact .inr free
  define scope phrase x free := Call.scoped_of_phrase scope phrase x free
  assign _ _ _ _ _ _ closures covered := scoped_assign closures covered
  push _ _ _ _ _ closures covered := scoped_push closures covered
  opening run _ closures := by
    refine scoped_of_extend closures ?_ run.entry
    intro a member part inside
    obtain ⟨_, _, rfl⟩ := List.mem_map.mp member
    exact Value.whenClosure_unassigned inside
  initializer run scope turn widens x free := by
    refine widens _ x (sees_of_opening run scope (.inl ?_))
    exact List.mem_flatMap.mpr ⟨_, turn.mem, free⟩
  abandon run _ widens := (fixes_of_extend run.entry).1.widens.trans widens
  rebind _ _ _ closures covered rebound := by
    refine closures.of_widens (widens_of_rebindHead rebound) ?_
    intro g x v binds
    exact (Eval.binds_of_rebindHead rebound binds).imp_right (covered v)
  letRec run scope widens rebound x free := by
    obtain ⟨distinct, _⟩ := Phrase.shaped_of run.phrase
    have opened := sees_of_opening (x := x) run.toLetRecOpening scope
    refine widens_of_rebindHead rebound _ x (widens _ x (opened ?_))
    rcases mem_freeNames_application distinct free with free | free
    · exact .inl free
    · exact .inr (mem_without.mp free).1
  close run _ widens _ rebound last := by
    have patched := widens_of_rebindHead rebound
    exact (fixes_of_extend run.entry).1.widens.trans (widens.trans (patched.trans last))

/-- A scoped expression among scoped closures is never refused for an unbound variable, and leaves
    scoped closures behind, in the state however it ends and in its value. -/
theorem eval_scoped (room depth : Nat) {e : Value} {env : EnvRef} {m : Machine}
    (names : ∀ x ∈ freeNames e, m.store.Sees env x) (closures : m.store.Scoped) :
    (∀ x m', eval room depth e env m ≠ .error (.fault (.unbound x)) m') ∧
      (stateAfter (eval room depth e env m)).store.Scoped ∧
      ∀ v m', eval room depth e env m = .ok v m' →
        ∀ part : Value, part.OccursIn v → m'.store.Covers part := by
  have meets := (scoping room).sound depth e env m closures names
  refine ⟨?_, ((scoping room).state trivial meets).1, ?_⟩
  · intro x m' run
    rw [run] at meets
    exact meets.1 x rfl
  · intro v m' run
    rw [run] at meets
    exact meets.2.2

theorem scoped_newGlobal : Machine.empty.newGlobal.2.store.Scoped := by
  intro f x v binds part inside
  exact whenClosure_newGlobal (Nat.not_lt_zero _) binds inside

/-- A loop that counts down, in a global environment: `letrec` brings its name into scope, and the
    other names are those of primitives. -/
theorem eval_scoped_countdown :
    let n : Value := .symbol ⟨"n"⟩
    let next : Value := .list ⟨1⟩ [.symbol ⟨"-"⟩, n, .number (.int 1)]
    let test : Value := .list ⟨2⟩ [.symbol ⟨"=="⟩, n, .number (.int 0)]
    let body : Value := .list ⟨3⟩
      [.symbol ⟨"if"⟩, test, n, .list ⟨4⟩ [.symbol ⟨"down"⟩, next]]
    let down : Value := .list ⟨5⟩ [.symbol ⟨"lambda"⟩, .list ⟨6⟩ [n], body]
    let e : Value := .list ⟨7⟩ [.symbol ⟨"letrec"⟩,
      .list ⟨8⟩ [.list ⟨9⟩ [.symbol ⟨"down"⟩, down]],
      .list ⟨10⟩ [.symbol ⟨"down"⟩, .number (.int 3)]]
    let (env, m) := Machine.empty.newGlobal
    (∀ x ∈ freeNames e, m.store.Sees env x) ∧ m.store.Scoped ∧
      ∀ x m', eval 500 500 e env m ≠ .error (.fault (.unbound x)) m' := by
  intro n next test body down e
  have names : ∀ x ∈ freeNames e,
      Machine.empty.newGlobal.2.store.Sees Machine.empty.newGlobal.1 x := by
    unfold Store.Sees
    decide
  exact ⟨names, scoped_newGlobal, (eval_scoped 500 500 names scoped_newGlobal).1⟩

end FrameLisp
