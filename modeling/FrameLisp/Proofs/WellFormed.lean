import FrameLisp.Eval.Evaluate
import FrameLisp.Proofs.Shape

/-!
Stores without loose ends. In a well-formed store every reference leads somewhere, no frame binds a
name twice, and the parameters of every closure are distinct. Evaluation keeps stores well-formed,
so all states are that are reached from nothing by making global environments and evaluating in
them (`Reached.wellFormed`).
-/
namespace FrameLisp

/-- The environment of a closure has been made, and its parameters are distinct. -/
def Store.Knows (s : Store) : Value → Prop :=
  Value.WhenClosure fun params _ env => s.HasEnv env ∧ params.Nodup

/-- Every reference leads somewhere, and no name is bound twice in one place. -/
structure Store.WellFormed (s : Store) : Prop where
  chains : ∀ env, ∀ f ∈ s.chain env, s.HasFrame f
  names : ∀ f, (s.frame f).names.Nodup
  values : ∀ f x v, s.Binds f x v → ∀ part : Value, part.OccursIn v → s.Knows part

section
variable {s t : Store} {env : EnvRef} {f : FrameRef} {x : Symbol} {v : Value}

theorem Store.Knows.mono (knows : s.Knows v) (chains : s.chains.size ≤ t.chains.size) :
    t.Knows v :=
  Value.WhenClosure.mono knows fun _ _ _ there => ⟨Nat.lt_of_lt_of_le there.1 chains, there.2⟩

namespace Store.WellFormed

theorem extend (wf : s.WellFormed) {fr : Frame} (distinct : fr.names.Nodup)
    (known : ∀ x v, fr.get? x = some v → ∀ part : Value, part.OccursIn v → s.Knows part) :
    (s.extend env fr).2.WellFormed := by
  have grown := fixes_extend s env fr
  have new : (s.extend env fr).2.HasFrame s.nextFrame := by
    simp [HasFrame, nextFrame, frames_size_extend]
  refine ⟨?_, ?_, ?_⟩
  · intro other g member
    rw [chain_extend] at member
    split at member
    · rcases List.mem_cons.mp member with rfl | member
      · exact new
      · exact grown.hasFrame (wf.chains env g member)
    · exact grown.hasFrame (wf.chains other g member)
  · intro g
    rw [frame_extend]
    split
    · exact distinct
    · exact wf.names g
  · intro g x v binds part inside
    rcases binds_extend binds with binds | ⟨_, found⟩
    · exact (wf.values g x v binds part inside).mono grown.chains
    · exact (known x v found part inside).mono grown.chains

theorem push (wf : s.WellFormed) (known : ∀ part : Value, part.OccursIn v → s.Knows part) :
    (s.push env (Frame.ofPairs [(x, v)])).WellFormed := by
  have grown := (grows_push s env x v).toPersists
  refine ⟨?_, ?_, ?_⟩
  · intro other g member
    rcases mem_chain_push member with ⟨rfl, _⟩ | member
    · simp [HasFrame, nextFrame, frames_size_push]
    · exact grown.hasFrame (wf.chains other g member)
  · intro g
    rw [frame_push]
    split
    · exact Frame.nodup_ofPairs _
    · exact wf.names g
  · intro g y w binds part inside
    rcases binds_push binds with binds | ⟨_, rfl⟩
    · exact (wf.values g y w binds part inside).mono grown.chains
    · exact (known part inside).mono grown.chains

/-- A change inside a frame that binds no name twice and no unknown closure. -/
theorem modifyFrame (wf : s.WellFormed) {change : Frame → Frame}
    (distinct : ∀ fr, fr.names.Nodup → (change fr).names.Nodup)
    (known : ∀ g x v, (s.modifyFrame f change).Binds g x v → s.Binds g x v ∨
      ∀ part : Value, part.OccursIn v → s.Knows part) : (s.modifyFrame f change).WellFormed := by
  refine ⟨?_, ?_, ?_⟩
  · intro other g member
    have there := wf.chains other g member
    rwa [HasFrame, frames_size_modifyFrame]
  · intro g
    rcases frame_modifyFrame s f g change with same | ⟨_, _, changed⟩
    · rw [same]
      exact wf.names g
    · rw [changed]
      exact distinct _ (wf.names g)
  · intro g x v binds
    rcases known g x v binds with binds | known
    · exact wf.values g x v binds
    · exact known

end Store.WellFormed

end

/-! ## Evaluation -/

/-- No environment is lost, and no stamp is given out twice. -/
structure Onward (m m' : Machine) : Prop where
  envs : m.store.chains.size ≤ m'.store.chains.size
  stamps : m.stamps ≤ m'.stamps

namespace Onward

variable {room depth : Nat} {e : Value} {m m1 m2 : Machine} {env inner : EnvRef}
  {params : List Symbol} {args : List Value}

theorem refl (m : Machine) : Onward m m := ⟨Nat.le_refl _, Nat.le_refl _⟩

theorem trans (first : Onward m m1) (second : Onward m1 m2) : Onward m m2 :=
  ⟨Nat.le_trans first.envs second.envs, Nat.le_trans first.stamps second.stamps⟩

theorem of_quiet (quiet : Quiet m m1) : Onward m m1 :=
  ⟨Nat.le_of_eq (congrArg (·.chains.size) quiet.store.symm), quiet.stamps⟩

theorem hasEnv (kept : Onward m m1) (there : m.store.HasEnv env) : m1.store.HasEnv env :=
  Nat.lt_of_lt_of_le there kept.envs

theorem of_extend (entry : Eval.extend env params args m = .ok inner m1)
    (kept : Onward m1 m2) : Onward m m2 := by
  obtain ⟨_, _, _, rfl⟩ := Eval.extend_eq_ok entry
  exact ⟨Nat.le_trans (fixes_of_extend entry).1.chains kept.envs, kept.stamps⟩

theorem of_rebindHead (rebound : Eval.rebindHead env params args m = .ok () m1) :
    Onward m m1 := by
  obtain ⟨_, _, _, _, rfl⟩ := Eval.rebindHead_eq_ok rebound
  exact ⟨Nat.le_refl _, Nat.le_refl _⟩

theorem of_opening (run : LetRecOpening e env m) (kept : Onward run.opened m1) :
    Onward m m1 :=
  of_extend run.entry kept

theorem of_letRec (run : LetRecRun room depth e env m)
    (kept : Onward run.opened run.initialized)
    (rebound : Eval.rebindHead run.inner run.bindings.params run.values run.initialized =
      .ok () m1) (last : Onward (m1.addRecord (.letrecBound run.bindings.params)) m2) :
    Onward m m2 :=
  of_extend run.entry (kept.trans ((of_rebindHead rebound).trans ⟨last.envs, last.stamps⟩))

end Onward

section
variable {m m' : Machine} {env inner : EnvRef} {params : List Symbol} {args : List Value}

/-- Binding known values in front of an environment leaves no loose ends. -/
theorem wellFormed_of_extend (wf : m.store.WellFormed)
    (known : ∀ a ∈ args, ∀ part : Value, part.OccursIn a → m.store.Knows part)
    (entry : Eval.extend env params args m = .ok inner m') : m'.store.WellFormed := by
  obtain ⟨fr, bound, rfl, rfl⟩ := Eval.extend_eq_ok entry
  refine wf.extend ?_ ?_
  · obtain ⟨_, rfl⟩ := Frame.bind_eq_ok.mp bound
    exact Frame.nodup_ofPairs _
  · intro x v found
    exact known v (Frame.mem_args_of_bind bound found)

theorem wellFormed_of_rebindHead (wf : m.store.WellFormed)
    (known : ∀ a ∈ args, ∀ part : Value, part.OccursIn a → m.store.Knows part)
    (rebound : Eval.rebindHead env params args m = .ok () m') : m'.store.WellFormed := by
  obtain ⟨head, _, _, _, rfl⟩ := Eval.rebindHead_eq_ok rebound
  refine wf.modifyFrame (fun fr => Frame.nodup_insertAll _) ?_
  intro g x v binds
  exact (Eval.binds_of_rebindHead rebound binds).imp_right (known v)

/-- Stores stay well-formed. -/
def wellFormedness (room : Nat) : Discipline room where
  Inv m := m.store.WellFormed
  Part m v := m.store.Knows v
  Moves _ := Onward
  Admits c := c.machine.store.HasEnv c.env
  Stops _ := True
  onHalt := True
  moves_refl _ := Onward.refl
  moves_trans := Onward.trans
  part_moves moves knows := knows.mono moves.envs
  part_made := Value.whenClosure_of_isMade
  part_unit := Value.whenClosure_unit
  inv_quiet quiet wf := quiet.store ▸ wf
  moves_quiet := Onward.of_quiet
  stops_bound _ := trivial
  unbound _ _ _ := trivial
  lookup wf _ _ found _ := by
    obtain ⟨f, _, binds⟩ := Store.binding?_eq_some found
    exact wf.values f _ _ binds
  lambda _ there phrase := by
    rintro stamp params body env ⟨⟩
    exact ⟨there, Phrase.shaped_of phrase⟩
  operand there _ _ moves := moves.hasEnv there
  body call _ _ _ := (fixes_of_extend call.entry).2.2.1
  enter wf _ known entry := wellFormed_of_extend wf known entry
  leave _ entry moves := moves.of_extend entry
  letPlain there _ := there
  condition there _ := there
  branch there _ _ moves := moves.hasEnv there
  define there _ := there
  assign _ _ _ _ _ _ wf known := by
    refine ⟨wf.modifyFrame (fun fr => Frame.nodup_insert) ?_, Nat.le_refl _, Nat.le_refl _⟩
    intro g x v binds
    rcases Store.binds_assign binds with binds | ⟨_, _, rfl⟩
    · exact .inl binds
    · exact .inr known
  push _ _ _ _ _ wf known :=
    ⟨wf.push known, Nat.le_of_eq (Store.chains_size_push ..).symm, Nat.le_refl _⟩
  opening run _ wf := by
    refine wellFormed_of_extend wf ?_ run.entry
    intro a member part inside
    obtain ⟨_, _, rfl⟩ := List.mem_map.mp member
    exact Value.whenClosure_unassigned inside
  initializer run _ _ moves := moves.hasEnv (fixes_of_extend run.entry).2.2.1
  abandon run _ moves := moves.of_opening run
  rebind _ _ _ wf known rebound := wellFormed_of_rebindHead wf known rebound
  letRec run _ moves rebound :=
    (moves.trans (.of_rebindHead rebound)).hasEnv (fixes_of_extend run.entry).2.2.1
  close run _ moves _ rebound last := .of_letRec run moves rebound last

end

/-! ## States reached by a caller -/

section
variable {p : Policy} {limit : Nat}

/-- What `evaluate` does to the store, and how many stamps it takes, is what evaluation within the
    limit in force does. -/
theorem evaluate_state_of_limit (inForce : p.recursionLimit = .ok limit) (e : Value) (env : EnvRef)
    (m : Machine) :
    let after := stateAfter (evaluate p e env m)
    let inner := stateAfter (eval (p.stack.levels limit) (p.stack.calls limit) e env m)
    after.store = inner.store ∧ after.stamps = inner.stamps := by
  have exhausted (levels : Nat) (m' : Machine) :
      (stateAfter (endExhausted levels limit e m')).store = m'.store ∧
        (stateAfter (endExhausted levels limit e m')).stamps = m'.stamps := by
    unfold endExhausted
    cases showWithin levels e <;> exact ⟨rfl, rfl⟩
  have faulty (levels : Nat) (cause : Fault) (m' : Machine) :
      (stateAfter (endFaulty p.level levels e cause m')).store = m'.store ∧
        (stateAfter (endFaulty p.level levels e cause m')).stamps = m'.stamps := by
    unfold endFaulty
    split
    · cases showWithin levels e <;> exact ⟨rfl, rfl⟩
    · exact ⟨rfl, rfl⟩
  simp only [evaluate, inForce]
  cases eval (p.stack.levels limit) (p.stack.calls limit) e env m with
  | ok v m' => exact ⟨rfl, rfl⟩
  | error h m' =>
    cases h with
    | exhausted => exact exhausted _ m'
    | fault cause =>
      dsimp only
      split
      · exact exhausted _ m'
      · exact faulty _ _ m'

theorem evaluate_store_of_limit (inForce : p.recursionLimit = .ok limit) (e : Value) (env : EnvRef)
    (m : Machine) : (stateAfter (evaluate p e env m)).store =
      (stateAfter (eval (p.stack.levels limit) (p.stack.calls limit) e env m)).store :=
  (evaluate_state_of_limit inForce e env m).1

theorem evaluate_of_refused {cause : Fault} (refused : p.recursionLimit = .error cause) (e : Value)
    (env : EnvRef) (m : Machine) : evaluate p e env m = .error cause m := by
  simp only [evaluate, refused]
  rfl

/-- What `evaluate` does to the store is what some evaluation does to it, if anything. -/
theorem evaluate_store (p : Policy) (e : Value) (env : EnvRef) (m : Machine) :
    (stateAfter (evaluate p e env m)).store = m.store ∨
      ∃ levels calls, (stateAfter (evaluate p e env m)).store =
        (stateAfter (eval levels calls e env m)).store := by
  cases inForce : p.recursionLimit with
  | error cause =>
    rw [evaluate_of_refused inForce]
    exact .inl rfl
  | ok limit => exact .inr ⟨_, _, evaluate_store_of_limit inForce e env m⟩

end

/-- `evaluate` leaves no loose ends, wherever it is used. -/
theorem wellFormed_evaluate {m : Machine} {env : EnvRef} (wf : m.store.WellFormed)
    (there : m.store.HasEnv env) (p : Policy) (e : Value) :
    (stateAfter (evaluate p e env m)).store.WellFormed ∧
      Onward m (stateAfter (evaluate p e env m)) := by
  cases inForce : p.recursionLimit with
  | error cause =>
    rw [evaluate_of_refused inForce]
    exact ⟨wf, .refl m⟩
  | ok limit =>
    let D := wellFormedness (p.stack.levels limit)
    have meets := D.sound (p.stack.calls limit) e env m wf there
    obtain ⟨wf', onward⟩ := D.state trivial meets
    obtain ⟨store, stamps⟩ := evaluate_state_of_limit inForce e env m
    refine ⟨store ▸ wf', ?_, ?_⟩
    · rw [store]
      exact onward.envs
    · rw [stamps]
      exact onward.stamps

private theorem primitives_value {ops : List Op} {serial : Nat} {x : Symbol} {v : Value}
    (member : (x, v) ∈ Builtin.primitives serial ops) :
    ∃ stamp, ∃ op ∈ ops, v = .primitive stamp op := by
  induction ops generalizing serial with
  | nil => cases member
  | cons op ops ih =>
    rcases List.mem_cons.mp member with here | later
    · cases here
      exact ⟨_, op, List.mem_cons_self, rfl⟩
    · obtain ⟨stamp, other, member, same⟩ := ih later
      exact ⟨stamp, other, List.mem_cons_of_mem _ member, same⟩

/-- The values that a global environment starts with: primitives, booleans and the empty list. -/
theorem builtin_value {serial : Nat} {fr : Frame} {x : Symbol} {v : Value}
    (member : fr ∈ Builtin.frames serial) (found : fr.get? x = some v) :
    (∃ stamp, ∃ op ∈ Builtin.listOps ++ Builtin.arithmeticOps, v = .primitive stamp op) ∨
      (∃ b, v = .bool b) ∨ ∃ stamp, v = .list stamp [] := by
  have entry := Frame.mem_entries_of_get? found
  simp only [Builtin.frames, List.mem_cons, List.not_mem_nil, or_false] at member
  rcases member with rfl | rfl | rfl
  · rcases List.mem_cons.mp entry with here | later
    · cases here
      exact .inr (.inr ⟨_, rfl⟩)
    · obtain ⟨stamp, op, member, same⟩ := primitives_value later
      exact .inl ⟨stamp, op, List.mem_append_left _ member, same⟩
  · obtain ⟨stamp, op, member, same⟩ := primitives_value entry
    exact .inl ⟨stamp, op, List.mem_append_right _ member, same⟩
  · simp only [Builtin.booleanFrame, List.mem_cons, List.not_mem_nil, or_false] at entry
    rcases entry with here | here <;> cases here <;> exact .inr (.inl ⟨_, rfl⟩)

theorem builtin_names {serial : Nat} {fr : Frame} (member : fr ∈ Builtin.frames serial) :
    fr.names.Nodup := by
  simp only [Builtin.frames, List.mem_cons, List.not_mem_nil, or_false] at member
  rcases member with rfl | rfl | rfl
  · show (Symbol.mk "nil" :: Builtin.listOps.map Op.tag).Nodup
    decide
  · show (Builtin.arithmeticOps.map Op.tag).Nodup
    decide
  · decide

section
variable {m : Machine} {f : FrameRef} {x : Symbol} {v : Value}

theorem newGlobal_fst (m : Machine) : m.newGlobal.1 = m.store.nextEnv := rfl

theorem newGlobal_store (m : Machine) :
    m.newGlobal.2.store = (m.store.newEnvOf (Builtin.frames m.stamps)).2 := rfl

/-- A new global environment adds frames and an environment, and changes nothing else. -/
theorem fixes_newGlobal (m : Machine) : Fixes m.store m.newGlobal.2.store := by
  rw [newGlobal_store]
  refine ⟨⟨?_, ?_, ?_⟩, ?_⟩
  · rw [Store.frames_size_newEnvOf]
    omega
  · rw [Store.chains_size_newEnvOf]
    omega
  · intro f there
    rw [Store.frame_newEnvOf_old there]
  · intro env there
    exact Store.chain_newEnvOf_old there _

theorem hasEnv_newGlobal (m : Machine) : m.newGlobal.2.store.HasEnv m.newGlobal.1 := by
  rw [newGlobal_store, newGlobal_fst, Store.HasEnv, Store.chains_size_newEnvOf]
  exact Nat.lt_succ_self _

/-- What occurs in the values that a global environment starts with could be made by a primitive, or
    is one of the language's own. -/
theorem binds_newGlobal (binds : m.newGlobal.2.store.Binds f x v) :
    m.store.Binds f x v ∨ ¬ m.store.HasFrame f ∧
      ∀ part : Value, part.OccursIn v → part.isMade = true ∨
        ∃ stamp, ∃ op ∈ Builtin.listOps ++ Builtin.arithmeticOps, part = .primitive stamp op := by
  rw [newGlobal_store] at binds
  rcases Store.binds_newEnvOf binds with binds | ⟨fresh, fr, member, found⟩
  · exact .inl binds
  refine .inr ⟨fresh, ?_⟩
  intro part inside
  rcases builtin_value member found with ⟨stamp, op, own, rfl⟩ | ⟨b, rfl⟩ | ⟨stamp, rfl⟩
  · cases inside
    exact .inr ⟨stamp, op, own, rfl⟩
  · cases inside
    exact .inl rfl
  · rcases Value.occursIn_list inside with rfl | ⟨_, member, _⟩
    · exact .inl rfl
    · cases member

/-- No closure is among the values that a global environment starts with. -/
theorem whenClosure_newGlobal {P : List Symbol → Value → EnvRef → Prop} {part : Value}
    (fresh : ¬ m.store.HasFrame f) (binds : m.newGlobal.2.store.Binds f x v)
    (inside : part.OccursIn v) : part.WhenClosure P := by
  rcases binds_newGlobal binds with binds | ⟨_, plain⟩
  · exact absurd (Store.hasFrame_of_binds binds) fresh
  · rcases plain part inside with made | ⟨stamp, op, _, rfl⟩
    · exact Value.whenClosure_of_isMade made
    · rintro _ _ _ _ ⟨⟩

theorem wellFormed_newGlobal (wf : m.store.WellFormed) : m.newGlobal.2.store.WellFormed := by
  have fixes := fixes_newGlobal m
  refine ⟨?_, ?_, ?_⟩
  · intro env g member
    by_cases there : m.store.HasEnv env
    · rw [fixes.chain env there] at member
      exact fixes.hasFrame (wf.chains env g member)
    rw [newGlobal_store] at member ⊢
    by_cases new : env = m.store.nextEnv
    · subst new
      rw [Store.HasFrame, Store.frames_size_newEnvOf]
      exact (Store.mem_chain_newEnvOf.mp member).2
    · rw [Store.chain_newEnvOf_absent there new] at member
      cases member
  · intro g
    by_cases there : m.store.HasFrame g
    · rw [fixes.names g there]
      exact wf.names g
    · rw [newGlobal_store]
      rcases Store.frame_newEnvOf_new there (Builtin.frames m.stamps) with nothing | member
      · rw [nothing]
        exact List.nodup_nil
      · exact builtin_names member
  · intro g x v binds part inside
    by_cases there : m.store.HasFrame g
    · rw [newGlobal_store, Store.Binds, Store.frame_newEnvOf_old there] at binds
      exact (wf.values g x v binds part inside).mono fixes.chains
    · exact whenClosure_newGlobal there binds inside

end

/-- A state that is reached by making global environments and evaluating in them, with the
    environments made so far. -/
inductive Reached : List EnvRef → Machine → Prop
  | start : Reached [] .empty
  | global {made : List EnvRef} {m : Machine} (before : Reached made m) :
      Reached (m.newGlobal.1 :: made) m.newGlobal.2
  | evaluate {made : List EnvRef} {m : Machine} {env : EnvRef} (before : Reached made m)
      (member : env ∈ made) (p : Policy) (e : Value) :
      Reached made (stateAfter (evaluate p e env m))

/-- A reached state has no loose ends, and the environments made so far are there. -/
theorem Reached.wellFormed {made : List EnvRef} {m : Machine} (reached : Reached made m) :
    m.store.WellFormed ∧ ∀ env ∈ made, m.store.HasEnv env := by
  induction reached with
  | start =>
    refine ⟨⟨?_, ?_, ?_⟩, by simp⟩
    · intro env f member
      cases member
    · intro f
      exact List.nodup_nil
    · intro f x v binds
      cases binds
  | @global made m _ ih =>
    refine ⟨wellFormed_newGlobal ih.1, ?_⟩
    intro env member
    rcases List.mem_cons.mp member with rfl | member
    · exact hasEnv_newGlobal m
    · exact (fixes_newGlobal m).hasEnv (ih.2 env member)
  | @evaluate made m env _ member p e ih =>
    obtain ⟨wf, onward⟩ := wellFormed_evaluate ih.1 (ih.2 env member) p e
    exact ⟨wf, fun other there => onward.hasEnv (ih.2 other there)⟩

end FrameLisp
