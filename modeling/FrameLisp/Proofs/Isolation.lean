import FrameLisp.Proofs.WellFormed

/-!
Write isolation. Evaluation in an environment writes only to what can be reached from there, by
going from environments to their frames and from closures in frames to their environments, and to
what it makes itself (`eval_writes_only_reached`). Global environments reach nothing in common, so
evaluation in one of them never alters another.
-/
namespace FrameLisp

/-- The environments that can be reached from one: itself, and the environments of the closures that
    occur in values of the frames met on the way. -/
inductive Store.Reaches (s : Store) (root : EnvRef) : EnvRef → Prop
  | root : Reaches s root root
  | captured {env inner : EnvRef} {f : FrameRef} {x : Symbol} {v body : Value} {stamp : Stamp}
      {params : List Symbol} (reached : Reaches s root env) (member : f ∈ s.chain env)
      (binds : s.Binds f x v) (inside : (Value.closure stamp params body inner).OccursIn v) :
      Reaches s root inner

/-- The frames of the environments that can be reached from one. -/
def Store.ReachesFrame (s : Store) (root : EnvRef) (f : FrameRef) : Prop :=
  ∃ env, s.Reaches root env ∧ f ∈ s.chain env

/-- What cannot be reached from an environment is as it was. -/
structure KeepsUnreached (root : EnvRef) (s t : Store) : Prop where
  frame : ∀ f, s.HasFrame f → ¬ s.ReachesFrame root f → t.frame f = s.frame f
  chain : ∀ env, s.HasEnv env → ¬ s.Reaches root env → t.chain env = s.chain env

/-- What can be reached from an environment is as it was. -/
structure KeepsReached (root : EnvRef) (s t : Store) : Prop where
  frame : ∀ f, s.ReachesFrame root f → t.frame f = s.frame f
  chain : ∀ env, s.Reaches root env → t.chain env = s.chain env

/-! ## Regions -/

/-- Some environments and some frames. -/
structure Region where
  envs : EnvRef → Prop
  frames : FrameRef → Prop

namespace Region

variable {R : Region} {s t : Store} {root env : EnvRef} {f : FrameRef}

/-- The environment of a closure lies in a region. -/
def Owns (R : Region) : Value → Prop := Value.WhenClosure fun _ _ env => R.envs env

/-- The environments of all closures in a value lie in a region. -/
def Holds (R : Region) (v : Value) : Prop := ∀ part : Value, part.OccursIn v → R.Owns part

/-- No path leads out of a region. -/
structure Closed (R : Region) (s : Store) : Prop where
  frames : ∀ env, R.envs env → ∀ f ∈ s.chain env, R.frames f
  values : ∀ f, R.frames f → ∀ x v, s.Binds f x v → R.Holds v

/-- What is reached from a place in a closed region lies in it. -/
theorem Closed.envs_of_reaches (closed : R.Closed s) (inside : R.envs root)
    (reached : s.Reaches root env) : R.envs env := by
  induction reached with
  | root => exact inside
  | captured _ member binds occurs ih =>
    exact closed.values _ (closed.frames _ ih _ member) _ _ binds _ occurs _ _ _ _ rfl

theorem Closed.frames_of_reaches (closed : R.Closed s) (inside : R.envs root)
    (reached : s.ReachesFrame root f) : R.frames f := by
  obtain ⟨env, reached, member⟩ := reached
  exact closed.frames env (closed.envs_of_reaches inside reached) f member

def reached (s : Store) (root : EnvRef) : Region := ⟨s.Reaches root, s.ReachesFrame root⟩

theorem closed_reached (kept : KeepsReached root s t) : (reached s root).Closed t := by
  refine ⟨?_, ?_⟩
  · intro env inside f member
    rw [kept.chain env inside] at member
    exact ⟨env, inside, member⟩
  · rintro f inside x v binds part occurs stamp params body inner rfl
    rw [Store.Binds, kept.frame f inside] at binds
    obtain ⟨env, inside, member⟩ := inside
    exact .captured inside member binds occurs

/-- A region and all that has not been made yet. -/
def orNew (R : Region) (s : Store) : Region :=
  ⟨fun env => R.envs env ∨ ¬ s.HasEnv env, fun f => R.frames f ∨ ¬ s.HasFrame f⟩

/-- No path leads from what has not been made yet. -/
theorem Closed.orNew (closed : R.Closed s) : (R.orNew s).Closed s := by
  refine ⟨?_, ?_⟩
  · rintro env (inside | absent) f member
    · exact .inl (closed.frames env inside f member)
    · rw [Store.chain_of_not_hasEnv absent] at member
      cases member
  · rintro f (inside | absent) x v binds part occurs
    · exact (closed.values f inside x v binds part occurs).mono fun _ _ _ => .inl
    · exact absurd (Store.hasFrame_of_binds binds) absent

/-- What is reached from an environment, and all that has not been made yet. -/
def available (s : Store) (root : EnvRef) : Region :=
  ⟨fun env => s.Reaches root env ∨ ¬ s.HasEnv env,
    fun f => s.ReachesFrame root f ∨ ¬ s.HasFrame f⟩

theorem closed_available (s : Store) (root : EnvRef) : (available s root).Closed s :=
  (closed_reached ⟨fun _ _ => rfl, fun _ _ => rfl⟩).orNew

end Region

/-! ## Writing inside a region -/

/-- All that has been written since a state lies in what was reached from an environment then, and
    in what has been made since. -/
structure Confined (root : EnvRef) (s t : Store) : Prop where
  closed : (Region.available s root).Closed t
  frames : s.frames.size ≤ t.frames.size
  chains : s.chains.size ≤ t.chains.size
  frame : ∀ f, ¬ (Region.available s root).frames f → t.frame f = s.frame f
  chain : ∀ env, ¬ (Region.available s root).envs env → t.chain env = s.chain env

namespace Confined

variable {s t : Store} {root env : EnvRef} {f : FrameRef}

theorem refl (root : EnvRef) (s : Store) : Confined root s s :=
  ⟨Region.closed_available s root, Nat.le_refl _, Nat.le_refl _, fun _ _ => rfl, fun _ _ => rfl⟩

theorem keepsUnreached (confined : Confined root s t) : KeepsUnreached root s t := by
  refine ⟨?_, ?_⟩
  · rintro f there unreached
    exact confined.frame f fun inside => inside.elim unreached fun absent => absent there
  · rintro env there unreached
    exact confined.chain env fun inside => inside.elim unreached fun absent => absent there

theorem nextFrame (confined : Confined root s t) :
    (Region.available s root).frames t.nextFrame :=
  .inr (Nat.not_lt.mpr confined.frames)

theorem nextEnv (confined : Confined root s t) : (Region.available s root).envs t.nextEnv :=
  .inr (Nat.not_lt.mpr confined.chains)

theorem extend (confined : Confined root s t) (inside : (Region.available s root).envs env)
    {fr : Frame} (held : ∀ x v, fr.get? x = some v → (Region.available s root).Holds v) :
    Confined root s (t.extend env fr).2 := by
  refine ⟨⟨?_, ?_⟩, ?_, ?_, ?_, ?_⟩
  · intro other there g member
    rw [Store.chain_extend] at member
    split at member
    · rcases List.mem_cons.mp member with rfl | member
      · exact confined.nextFrame
      · exact confined.closed.frames env inside g member
    · exact confined.closed.frames other there g member
  · intro g there x v binds
    rcases Store.binds_extend binds with binds | ⟨_, found⟩
    · exact confined.closed.values g there x v binds
    · exact held x v found
  · exact Nat.le_trans confined.frames (by rw [Store.frames_size_extend]; omega)
  · exact Nat.le_trans confined.chains (by rw [Store.chains_size_extend]; omega)
  · intro g outside
    have apart : g ≠ t.nextFrame := fun same => outside (same ▸ confined.nextFrame)
    rw [Store.frame_extend, if_neg apart, confined.frame g outside]
  · intro other outside
    have apart : other ≠ t.nextEnv := fun same => outside (same ▸ confined.nextEnv)
    rw [Store.chain_extend, if_neg apart, confined.chain other outside]

theorem push (confined : Confined root s t) (inside : (Region.available s root).envs env)
    {x : Symbol} {v : Value} (held : (Region.available s root).Holds v) :
    Confined root s (t.push env (Frame.ofPairs [(x, v)])) := by
  refine ⟨⟨?_, ?_⟩, ?_, ?_, ?_, ?_⟩
  · intro other there g member
    rcases Store.mem_chain_push member with ⟨rfl, _⟩ | member
    · exact confined.nextFrame
    · exact confined.closed.frames other there g member
  · intro g there y w binds
    rcases Store.binds_push binds with binds | ⟨_, rfl⟩
    · exact confined.closed.values g there y w binds
    · exact held
  · exact Nat.le_trans confined.frames (by rw [Store.frames_size_push]; omega)
  · exact Nat.le_trans confined.chains (Nat.le_of_eq (Store.chains_size_push ..).symm)
  · intro g outside
    have apart : g ≠ t.nextFrame := fun same => outside (same ▸ confined.nextFrame)
    rw [Store.frame_push, if_neg apart, confined.frame g outside]
  · intro other outside
    have apart : other ≠ env := fun same => outside (same ▸ inside)
    rw [Store.chain_push_other apart, confined.chain other outside]

theorem modifyFrame (confined : Confined root s t) (inside : (Region.available s root).frames f)
    {change : Frame → Frame} (held : ∀ g x v, (t.modifyFrame f change).Binds g x v →
      t.Binds g x v ∨ (Region.available s root).Holds v) :
    Confined root s (t.modifyFrame f change) := by
  refine ⟨⟨confined.closed.frames, ?_⟩, ?_, confined.chains, ?_, confined.chain⟩
  · intro g there x v binds
    rcases held g x v binds with binds | held
    · exact confined.closed.values g there x v binds
    · exact held
  · rw [Store.frames_size_modifyFrame]
    exact confined.frames
  · intro g outside
    have apart : g ≠ f := fun same => outside (same ▸ inside)
    rw [Store.frame_modifyFrame_other apart, confined.frame g outside]

end Confined

/-! ## Evaluation -/

section
variable {s : Store} {root env inner : EnvRef} {m m' : Machine} {params : List Symbol}
  {args : List Value}

theorem confined_of_extend (confined : Confined root s m.store)
    (inside : (Region.available s root).envs env)
    (held : ∀ a ∈ args, (Region.available s root).Holds a)
    (entry : Eval.extend env params args m = .ok inner m') : Confined root s m'.store := by
  obtain ⟨fr, bound, rfl, rfl⟩ := Eval.extend_eq_ok entry
  refine confined.extend inside ?_
  intro x v found
  exact held v (Frame.mem_args_of_bind bound found)

theorem confined_of_rebindHead (confined : Confined root s m.store)
    (inside : (Region.available s root).envs env)
    (held : ∀ a ∈ args, (Region.available s root).Holds a)
    (rebound : Eval.rebindHead env params args m = .ok () m') : Confined root s m'.store := by
  obtain ⟨head, rest, _, chain, rfl⟩ := Eval.rebindHead_eq_ok rebound
  refine confined.modifyFrame ?_ ?_
  · exact confined.closed.frames env inside head (chain ▸ List.mem_cons_self)
  · intro g x v binds
    exact (Eval.binds_of_rebindHead rebound binds).imp_right (held v)

/-- An environment made for a call is available, since it was not there before. -/
theorem available_of_extend (grown : s.chains.size ≤ m.store.chains.size)
    (entry : Eval.extend env params args m = .ok inner m') :
    (Region.available s root).envs inner ∧ s.chains.size ≤ m'.store.chains.size := by
  obtain ⟨fixes, fresh, _⟩ := fixes_of_extend entry
  have later : ¬ s.HasEnv inner := fun there => fresh (Nat.lt_of_lt_of_le there grown)
  exact ⟨.inr later, Nat.le_trans grown fixes.chains⟩

end

/-- What is written lies in what was reached at first or has been made since. -/
def confinement (room : Nat) (root : EnvRef) (s : Store) : Discipline room where
  Inv m := Confined root s m.store
  Part _ v := (Region.available s root).Owns v
  Moves _ := Onward
  Admits c := (Region.available s root).envs c.env ∧ s.chains.size ≤ c.machine.store.chains.size
  Stops _ := True
  onHalt := True
  moves_refl _ := Onward.refl
  moves_trans := Onward.trans
  part_moves _ owned := owned
  part_made := Value.whenClosure_of_isMade
  part_unit := Value.whenClosure_unit
  inv_quiet quiet confined := quiet.store ▸ confined
  moves_quiet := Onward.of_quiet
  stops_bound _ := trivial
  unbound _ _ _ := trivial
  lookup confined admits _ found _ := by
    obtain ⟨f, member, binds⟩ := Store.binding?_eq_some found
    exact confined.closed.values f (confined.closed.frames _ admits.1 f member) _ _ binds
  lambda _ admits _ := by
    rintro stamp params body env ⟨⟩
    exact admits.1
  operand admits _ _ moves := ⟨admits.1, Nat.le_trans admits.2 moves.envs⟩
  body call admits moves _ := available_of_extend (Nat.le_trans admits.2 moves.envs) call.entry
  enter confined owned held entry :=
    confined_of_extend confined (owned _ _ _ _ rfl) held entry
  leave _ entry moves := moves.of_extend entry
  letPlain admits _ := admits
  condition admits _ := admits
  branch admits _ _ moves := ⟨admits.1, Nat.le_trans admits.2 moves.envs⟩
  define admits _ := admits
  assign _ admits before found _ _ confined held := by
    obtain ⟨member, _⟩ := Store.find?_eq_some found
    refine ⟨confined.modifyFrame (before.closed.frames _ admits.1 _ member) ?_, Nat.le_refl _,
      Nat.le_refl _⟩
    intro g x v binds
    rcases Store.binds_assign binds with binds | ⟨_, _, rfl⟩
    · exact .inl binds
    · exact .inr held
  push _ admits _ _ _ confined held :=
    ⟨confined.push admits.1 held, Nat.le_of_eq (Store.chains_size_push ..).symm, Nat.le_refl _⟩
  opening run admits confined := by
    refine confined_of_extend confined admits.1 ?_ run.entry
    intro a member part occurs
    obtain ⟨_, _, rfl⟩ := List.mem_map.mp member
    exact Value.whenClosure_unassigned occurs
  initializer run admits _ moves := by
    obtain ⟨inside, grown⟩ := available_of_extend admits.2 run.entry
    exact ⟨inside, Nat.le_trans grown moves.envs⟩
  abandon run _ moves := moves.of_opening run
  rebind run admits _ confined held rebound :=
    confined_of_rebindHead confined (available_of_extend admits.2 run.entry).1 held rebound
  letRec run admits moves rebound := by
    obtain ⟨inside, grown⟩ := available_of_extend admits.2 run.entry
    have patched := moves.trans (.of_rebindHead rebound)
    exact ⟨inside, Nat.le_trans grown patched.envs⟩
  close run _ moves _ rebound last := .of_letRec run moves rebound last

theorem confined_eval (room depth : Nat) (e : Value) (env : EnvRef) (m : Machine) :
    Confined env m.store (stateAfter (eval room depth e env m)).store := by
  have meets := (confinement room env m.store).sound depth e env m (.refl env m.store)
    ⟨.inl .root, Nat.le_refl _⟩
  exact ((confinement room env m.store).state trivial meets).1

theorem confined_evaluate (p : Policy) (e : Value) (env : EnvRef) (m : Machine) :
    Confined env m.store (stateAfter (evaluate p e env m)).store := by
  rcases evaluate_store p e env m with same | ⟨levels, calls, same⟩
  · rw [same]
    exact .refl env m.store
  · rw [same]
    exact confined_eval levels calls e env m

/-! ## Global environments -/

/-- Two environments reach nothing in common. -/
structure Apart (s : Store) (g h : EnvRef) : Prop where
  envs : ∀ env, s.Reaches g env → ¬ s.Reaches h env
  frames : ∀ f, s.ReachesFrame g f → ¬ s.ReachesFrame h f

section
variable {s t : Store} {g h root env : EnvRef} {f : FrameRef} {m : Machine}

theorem Apart.symm (apart : Apart s g h) : Apart s h g :=
  ⟨fun env there here => apart.envs env here there,
    fun f there here => apart.frames f here there⟩

/-- Environments are apart if they lie in closed regions that have nothing in common. -/
theorem apart_of_closed {G H : Region} (closedG : G.Closed s) (closedH : H.Closed s)
    (insideG : G.envs g) (insideH : H.envs h) (envs : ∀ env, G.envs env → ¬ H.envs env)
    (frames : ∀ f, G.frames f → ¬ H.frames f) : Apart s g h := by
  refine ⟨?_, ?_⟩
  · intro env fromG fromH
    exact envs env (closedG.envs_of_reaches insideG fromG) (closedH.envs_of_reaches insideH fromH)
  · intro f fromG fromH
    exact frames f (closedG.frames_of_reaches insideG fromG)
      (closedH.frames_of_reaches insideH fromH)

theorem hasEnv_of_reaches (wf : s.WellFormed) (there : s.HasEnv root)
    (reached : s.Reaches root env) : s.HasEnv env := by
  cases reached with
  | root => exact there
  | captured _ _ binds occurs => exact (wf.values _ _ _ binds _ occurs _ _ _ _ rfl).1

theorem hasFrame_of_reachesFrame (wf : s.WellFormed) (reached : s.ReachesFrame root f) :
    s.HasFrame f := by
  obtain ⟨env, _, member⟩ := reached
  exact wf.chains env f member

/-- What one environment reaches is kept by what is written from another that is apart from it. -/
theorem KeepsUnreached.keepsReached (kept : KeepsUnreached g s t) (wf : s.WellFormed)
    (there : s.HasEnv h) (apart : Apart s g h) : KeepsReached h s t := by
  refine ⟨?_, ?_⟩
  · intro f reached
    exact kept.frame f (hasFrame_of_reachesFrame wf reached) fun other =>
      apart.frames f other reached
  · intro env reached
    exact kept.chain env (hasEnv_of_reaches wf there reached) fun other =>
      apart.envs env other reached

theorem Apart.of_kept (apart : Apart s g h) (keptG : KeepsReached g s t)
    (keptH : KeepsReached h s t) : Apart t g h :=
  apart_of_closed (Region.closed_reached keptG) (Region.closed_reached keptH) .root .root
    apart.envs apart.frames

theorem Apart.of_confined (apart : Apart s g h) (wf : s.WellFormed) (there : s.HasEnv h)
    (confined : Confined g s t) : Apart t g h := by
  have kept := confined.keepsUnreached.keepsReached wf there apart
  -- Whatever is reached from `g` now was reached before or is new, and `h` reaches neither.
  refine apart_of_closed confined.closed (Region.closed_reached kept) (.inl .root) .root ?_ ?_
  · rintro env (reached | absent) other
    · exact apart.envs env reached other
    · exact absent (hasEnv_of_reaches wf there other)
  · rintro f (reached | absent) other
    · exact apart.frames f reached other
    · exact absent (hasFrame_of_reachesFrame wf other)

theorem keepsReached_newGlobal (wf : m.store.WellFormed) (there : m.store.HasEnv h) :
    KeepsReached h m.store m.newGlobal.2.store := by
  rw [newGlobal_store]
  refine ⟨?_, ?_⟩
  · intro f reached
    exact Store.frame_newEnvOf_old (hasFrame_of_reachesFrame wf reached) _
  · intro env reached
    exact Store.chain_newEnvOf_old (hasEnv_of_reaches wf there reached) _

theorem apart_newGlobal (wf : m.store.WellFormed) (there : m.store.HasEnv h) :
    Apart m.newGlobal.2.store m.newGlobal.1 h := by
  -- A new global environment reaches only itself and its own frames.
  let own : Region := ⟨(· = m.store.nextEnv), fun f => ¬ m.store.HasFrame f⟩
  have closed : own.Closed m.newGlobal.2.store := by
    refine ⟨?_, ?_⟩
    · rintro env rfl f member
      rw [newGlobal_store] at member
      exact Nat.not_lt.mpr (Store.mem_chain_newEnvOf.mp member).1
    · intro f fresh x v binds part occurs
      exact whenClosure_newGlobal fresh binds occurs
  refine apart_of_closed closed (Region.closed_reached (keepsReached_newGlobal wf there)) rfl .root
    ?_ ?_
  · rintro env rfl reached
    exact Store.not_hasEnv_nextEnv (hasEnv_of_reaches wf there reached)
  · intro f fresh reached
    exact fresh (hasFrame_of_reachesFrame wf reached)

end

/-- In every reached state the global environments are apart from each other. -/
theorem Reached.apart {made : List EnvRef} {m : Machine} (reached : Reached made m) :
    ∀ g ∈ made, ∀ h ∈ made, g ≠ h → Apart m.store g h := by
  induction reached with
  | start => simp
  | @global made m before ih =>
    obtain ⟨wf, there⟩ := before.wellFormed
    intro g memberG h memberH different
    rcases List.mem_cons.mp memberG with rfl | memberG
    · rcases List.mem_cons.mp memberH with rfl | memberH
      · exact absurd rfl different
      · exact apart_newGlobal wf (there h memberH)
    · rcases List.mem_cons.mp memberH with rfl | memberH
      · exact (apart_newGlobal wf (there g memberG)).symm
      · exact (ih g memberG h memberH different).of_kept
          (keepsReached_newGlobal wf (there g memberG))
          (keepsReached_newGlobal wf (there h memberH))
  | @evaluate made m env before member p e ih =>
    obtain ⟨wf, there⟩ := before.wellFormed
    have confined := confined_evaluate p e env m
    intro g memberG h memberH different
    -- Only the environment of the evaluation can reach anything that it did not reach before.
    by_cases here : g = env
    · subst here
      exact (ih g memberG h memberH different).of_confined wf (there h memberH) confined
    by_cases here' : h = env
    · subst here'
      exact ((ih g memberG h memberH different).symm.of_confined wf (there g memberG)
        confined).symm
    · have kept (k : EnvRef) (memberK : k ∈ made) (other : k ≠ env) :=
        confined.keepsUnreached.keepsReached wf (there k memberK)
          (ih env member k memberK other.symm)
      exact (ih g memberG h memberH different).of_kept (kept g memberG here)
        (kept h memberH here')

/-- Evaluation writes only to what could be reached from its environment and to what it makes, and
    so, in every reached state, evaluation in one global environment leaves all that another reaches
    as it was. -/
theorem eval_writes_only_reached (m : Machine) :
    (∀ room depth e env,
      KeepsUnreached env m.store (stateAfter (eval room depth e env m)).store) ∧
    ∀ made, Reached made m → ∀ g ∈ made, ∀ h ∈ made, g ≠ h → ∀ p e,
      KeepsReached h m.store (stateAfter (evaluate p e g m)).store := by
  constructor
  · intro room depth e env
    exact (confined_eval room depth e env m).keepsUnreached
  · intro made reached g memberG h memberH different p e
    obtain ⟨wf, there⟩ := reached.wellFormed
    exact (confined_evaluate p e g m).keepsUnreached.keepsReached wf (there h memberH)
      (reached.apart g memberG h memberH different)

/-- Two global environments, one after the other: whatever is evaluated in the second leaves the
    first as it was. -/
theorem eval_writes_only_reached_two :
    let first := Machine.empty.newGlobal
    let second := first.2.newGlobal
    second.1 ≠ first.1 ∧ ∀ p e, KeepsReached first.1 second.2.store
      (stateAfter (evaluate p e second.1 second.2)).store := by
  have different : Machine.empty.newGlobal.2.newGlobal.1 ≠ Machine.empty.newGlobal.1 := by decide
  refine ⟨different, ?_⟩
  exact (eval_writes_only_reached _).2 _ (.global (.global .start)) _ (by simp) _ (by simp)
    different

end FrameLisp
