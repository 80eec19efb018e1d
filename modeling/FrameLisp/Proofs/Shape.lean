import FrameLisp.Proofs.Discipline

/-!
The shape of the store. Evaluation in an environment may put new frames in front of that
environment, each binding one name, and leaves the frames of all other environments alone; no frame
that is already there gains, loses or reorders names (`eval_grows_apply_fixes`). The four places
where evaluation writes to the store are `fixes_assign`, `grows_push`, `fixes_extend` and
`Fixes.assignAll`.
-/
namespace FrameLisp

/-- Nothing is lost: what was made stays, and frames keep their names in order. -/
structure Persists (s t : Store) : Prop where
  frames : s.frames.size ≤ t.frames.size
  chains : s.chains.size ≤ t.chains.size
  names : ∀ f, s.HasFrame f → (t.frame f).names = (s.frame f).names

/-- Every environment that was there has the same frames as before. -/
structure Fixes (s t : Store) : Prop extends Persists s t where
  chain : ∀ env, s.HasEnv env → t.chain env = s.chain env

/-- Every environment but one has the same frames as before, and that one has some more in front of
    them. These are new and bind one name each. -/
structure Grows (env : EnvRef) (s t : Store) : Prop extends Persists s t where
  others : ∀ other, s.HasEnv other → other ≠ env → t.chain other = s.chain other
  pushed : s.HasEnv env → ∃ new, t.chain env = new ++ s.chain env ∧
    ∀ f ∈ new, ¬ s.HasFrame f ∧ t.HasFrame f ∧ ∃ x, (t.frame f).names = [x]

namespace Persists

variable {s t u : Store} {env : EnvRef} {f : FrameRef}

theorem refl (s : Store) : Persists s s := ⟨Nat.le_refl _, Nat.le_refl _, fun _ _ => rfl⟩

theorem hasFrame (kept : Persists s t) (there : s.HasFrame f) : t.HasFrame f :=
  Nat.lt_of_lt_of_le there kept.frames

theorem hasEnv (kept : Persists s t) (there : s.HasEnv env) : t.HasEnv env :=
  Nat.lt_of_lt_of_le there kept.chains

theorem trans (first : Persists s t) (second : Persists t u) : Persists s u := by
  refine ⟨Nat.le_trans first.frames second.frames, Nat.le_trans first.chains second.chains, ?_⟩
  intro f there
  rw [second.names f (first.hasFrame there), first.names f there]

end Persists

section
variable {s t u : Store} {env inner : EnvRef}

theorem Fixes.trans (first : Fixes s t) (second : Fixes t u) : Fixes s u := by
  refine ⟨first.toPersists.trans second.toPersists, ?_⟩
  intro env there
  rw [second.chain env (first.hasEnv there), first.chain env there]

theorem Fixes.grows (fixes : Fixes s t) : Grows env s t := by
  refine ⟨fixes.toPersists, fun other there _ => fixes.chain other there, ?_⟩
  intro there
  exact ⟨[], fixes.chain env there, by simp⟩

theorem Fixes.refl (s : Store) : Fixes s s := ⟨.refl s, fun _ _ => rfl⟩

theorem Grows.trans (first : Grows env s t) (second : Grows env t u) : Grows env s u := by
  refine ⟨first.toPersists.trans second.toPersists, ?_, ?_⟩
  · intro other there apart
    rw [second.others other (first.hasEnv there) apart, first.others other there apart]
  · intro there
    obtain ⟨new, chain, each⟩ := first.pushed there
    obtain ⟨newer, chain', each'⟩ := second.pushed (first.hasEnv there)
    refine ⟨newer ++ new, by rw [chain', chain, List.append_assoc], ?_⟩
    intro f member
    rcases List.mem_append.mp member with member | member
    · obtain ⟨fresh, made, name⟩ := each' f member
      exact ⟨fun there => fresh (first.hasFrame there), made, name⟩
    · -- A frame pushed earlier still binds one name, since frames keep their names.
      obtain ⟨fresh, made, x, name⟩ := each f member
      exact ⟨fresh, second.hasFrame made, x, by rw [second.names f made, name]⟩

/-- What grows in an environment made since then has not changed any environment of old. -/
theorem Fixes.trans_grows (fixes : Fixes s t) (fresh : ¬ s.HasEnv inner) (grows : Grows inner t u) :
    Fixes s u := by
  refine ⟨fixes.toPersists.trans grows.toPersists, ?_⟩
  intro env there
  have apart : env ≠ inner := by
    rintro rfl
    exact fresh there
  rw [grows.others env (fixes.hasEnv there) apart, fixes.chain env there]

/-! ## The operations of the store -/

theorem fixes_extend (s : Store) (env : EnvRef) (fr : Frame) : Fixes s (s.extend env fr).2 := by
  refine ⟨⟨?_, ?_, ?_⟩, ?_⟩
  · rw [Store.frames_size_extend]
    omega
  · rw [Store.chains_size_extend]
    omega
  · intro f there
    rw [Store.frame_extend, if_neg (Store.ne_nextFrame there)]
  · intro other there
    rw [Store.chain_extend, if_neg (Store.ne_nextEnv there)]

theorem hasEnv_extend (s : Store) (env : EnvRef) (fr : Frame) :
    (s.extend env fr).2.HasEnv s.nextEnv := by
  simp only [Store.HasEnv, Store.chains_size_extend, Store.nextEnv]
  omega

/-- Giving a new value to a name that a frame binds changes no shape. -/
theorem fixes_assign {f : FrameRef} {x : Symbol} {v : Value} (bound : x ∈ (s.frame f).names) :
    Fixes s (s.assign f x v) := by
  refine ⟨⟨?_, Nat.le_refl _, ?_⟩, fun _ _ => rfl⟩
  · exact Nat.le_of_eq (Store.frames_size_modifyFrame ..).symm
  · intro g _
    rcases Store.frame_modifyFrame s f g (·.insert x v) with same | ⟨rfl, _, changed⟩
    · exact congrArg Frame.names same
    · rw [Store.assign, changed, Frame.names_insert_of_mem bound]

theorem grows_push (s : Store) (env : EnvRef) (x : Symbol) (v : Value) :
    Grows env s (s.push env (Frame.ofPairs [(x, v)])) := by
  refine ⟨⟨?_, ?_, ?_⟩, ?_, ?_⟩
  · rw [Store.frames_size_push]
    omega
  · exact Nat.le_of_eq (Store.chains_size_push ..).symm
  · intro f there
    rw [Store.frame_push, if_neg (Store.ne_nextFrame there)]
  · intro other _ apart
    exact Store.chain_push_other apart _
  · intro there
    refine ⟨[s.nextFrame], Store.chain_push_self there _, ?_⟩
    intro f member
    rw [List.mem_singleton] at member
    subst member
    refine ⟨Store.not_hasFrame_nextFrame, ?_, x, ?_⟩
    · simp [Store.HasFrame, Store.nextFrame, Store.frames_size_push]
    · rw [Store.frame_push, if_pos rfl, Frame.names_ofPairs_singleton]

/-- Names can be bound in a frame made since then. -/
theorem Fixes.assignAll {head : FrameRef} (fixes : Fixes s t) (fresh : ¬ s.HasFrame head)
    (pairs : List (Symbol × Value)) : Fixes s (t.assignAll head pairs) := by
  refine ⟨⟨?_, fixes.chains, ?_⟩, fixes.chain⟩
  · rw [Store.assignAll, Store.frames_size_modifyFrame]
    exact fixes.frames
  · intro f there
    have apart : f ≠ head := by
      rintro rfl
      exact fresh there
    rw [Store.assignAll, Store.frame_modifyFrame_other apart, fixes.names f there]

end

/-! ## Evaluation -/

section
variable {room depth : Nat} {e : Value} {env inner : EnvRef} {m m' : Machine}
  {params : List Symbol} {args : List Value}

/-- An environment made for a call is new, is there afterwards, and nothing else is different. -/
theorem fixes_of_extend (entry : Eval.extend env params args m = .ok inner m') :
    Fixes m.store m'.store ∧ ¬ m.store.HasEnv inner ∧ m'.store.HasEnv inner ∧
      m'.store.chain inner = m.store.nextFrame :: m.store.chain env := by
  obtain ⟨fr, _, rfl, rfl⟩ := Eval.extend_eq_ok entry
  refine ⟨fixes_extend _ env fr, Store.not_hasEnv_nextEnv, hasEnv_extend _ env fr, ?_⟩
  exact (Store.chain_extend ..).trans (if_pos rfl)

/-- The frame that is at the head of an environment was made since the environment was. -/
theorem fresh_head {t : Store} {head : FrameRef} {rest : Chain}
    (entry : Eval.extend env params args m = .ok inner m') (grows : Grows inner m'.store t)
    (chain : t.chain inner = head :: rest) : ¬ m.store.HasFrame head := by
  obtain ⟨fixes, _, made, opened⟩ := fixes_of_extend entry
  obtain ⟨new, grown, each⟩ := grows.pushed made
  rw [chain, opened] at grown
  cases new with
  | nil =>
    injection grown with same
    rw [same]
    exact Store.not_hasFrame_nextFrame
  | cons first others =>
    injection grown with same
    intro there
    exact (each first List.mem_cons_self).1 (fixes.hasFrame (same ▸ there))

/-- `letrec` writes into frames of its own only, wherever its initializers may have put them. -/
theorem fixes_of_letRec (run : LetRecRun room depth e env m)
    (grows : Grows run.inner run.opened.store run.initialized.store)
    (rebound : Eval.rebindHead run.inner run.bindings.params run.values run.initialized =
      .ok () m') : Fixes m.store m'.store := by
  obtain ⟨fixes, fresh, _⟩ := fixes_of_extend run.entry
  obtain ⟨head, rest, _, chain, rfl⟩ := Eval.rebindHead_eq_ok rebound
  exact (fixes.trans_grows fresh grows).assignAll (fresh_head run.entry grows chain) _

/-- The shape of the store is kept. -/
def shape (room : Nat) : Discipline room where
  Inv _ := True
  Part _ _ := True
  Moves env m m' := Grows env m.store m'.store
  Admits _ := True
  Stops _ := True
  onHalt := True
  moves_refl _ m := (Fixes.refl m.store).grows
  moves_trans := Grows.trans
  part_moves _ _ := trivial
  part_made _ := trivial
  part_unit := trivial
  inv_quiet _ _ := trivial
  moves_quiet quiet := quiet.store ▸ (Fixes.refl _).grows
  stops_bound _ := trivial
  unbound _ _ _ := trivial
  lookup _ _ _ _ _ _ _ := trivial
  lambda _ _ _ := trivial
  operand _ _ _ _ := trivial
  body _ _ _ _ := trivial
  enter _ _ _ _ := trivial
  leave _ entry grows := by
    obtain ⟨fixes, fresh, _⟩ := fixes_of_extend entry
    exact (fixes.trans_grows fresh grows).grows
  letPlain _ _ := trivial
  condition _ _ := trivial
  branch _ _ _ _ := trivial
  define _ _ := trivial
  assign _ _ _ found _ grows _ _ := by
    obtain ⟨_, bound⟩ := Store.find?_eq_some found
    have there := Store.hasFrame_of_mem_names bound
    exact ⟨trivial, (fixes_assign (grows.names _ there ▸ bound)).grows⟩
  push _ _ _ _ _ _ _ := ⟨trivial, grows_push _ _ _ _⟩
  opening _ _ _ := trivial
  initializer _ _ _ _ := trivial
  abandon run _ grows := by
    obtain ⟨fixes, fresh, _⟩ := fixes_of_extend run.entry
    exact (fixes.trans_grows fresh grows).grows
  rebind _ _ _ _ _ _ := trivial
  letRec _ _ _ _ := trivial
  close run _ grows _ rebound last := by
    obtain ⟨_, fresh, _⟩ := fixes_of_extend run.entry
    exact ((fixes_of_letRec run grows rebound).trans_grows fresh last).grows

/-- The initializers may have put frames in front of the one that was made for the names. -/
theorem LetRecRun.grows (run : LetRecRun room depth e env m) :
    Grows run.inner run.opened.store run.initialized.store :=
  ((shape room).initialized run trivial trivial).2.1

end

/-- Evaluation in an environment changes the shape of the store at most by new frames of one name in
    front of that environment, and the application of a function does not change it at all, whether
    they yield a value or stop. -/
theorem eval_grows_apply_fixes (room depth : Nat) (m : Machine) :
    (∀ e env, Grows env m.store (stateAfter (eval room depth e env m)).store) ∧
      ∀ fn args,
        Fixes m.store (stateAfter (Eval.apply room (eval room depth) fn args m)).store := by
  constructor
  · intro e env
    have meets := (shape room).sound depth e env m trivial trivial
    exact ((shape room).state trivial meets).2
  · intro fn args
    -- Seen from an environment that is not there yet, no environment of old may grow.
    have meets : (shape room).Meets m.store.nextEnv m
        (Eval.apply room (eval room depth) fn args m) :=
      (shape room).sound_apply ((shape room).sound depth) trivial (fun _ _ => trivial)
        (fun _ _ _ _ => trivial) fun _ _ _ _ _ _ _ _ => trivial
    have grows := ((shape room).state trivial meets).2
    exact (Fixes.refl m.store).trans_grows Store.not_hasEnv_nextEnv grows

end FrameLisp
