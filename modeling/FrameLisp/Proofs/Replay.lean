import FrameLisp.Proofs.Depth
import FrameLisp.Proofs.Failure
import FrameLisp.Proofs.Filling
import FrameLisp.Proofs.Knot
import FrameLisp.Proofs.Simulation

/-!
What `letrec` gets by evaluating its initializers a second time. Without definitions and without
the host's primitives it gets the same values again, up to the references made on the way
(`eval_letRec_replays`). The argument has three steps. The first evaluation only adds to the store,
so from the state that it leaves the initializers do the same again, with other references. A
computation that returns has not looked at a placeholder, so they also do the same when the
placeholders have been filled. And with less depth they do the same unless the depth runs out.
-/
namespace FrameLisp

/-! ## What has been made -/

/-- The stamp of a nan has been taken. -/
def Number.MadeIn (m : Machine) : Number → Prop
  | .nan s => s.serial < m.stamps
  | _ => True

namespace Value

mutual

/-- Whatever a value refers to has been made, in code as elsewhere: the stamps have been taken, and
    the environments are there. -/
def MadeIn (m : Machine) : Value → Prop
  | .number x => x.MadeIn m
  | .list s items | .tuple s items => s.serial < m.stamps ∧ MadeInItems m items
  | .dict s entries => s.serial < m.stamps ∧ MadeInEntries m entries
  | .closure s _ body env => s.serial < m.stamps ∧ MadeIn m body ∧ m.store.HasEnv env
  | .primitive s _ => s.serial < m.stamps
  | .bool _ | .symbol _ | .str _ | .nothing | .unit | .unassigned => True

/-- Whatever the items of a sequence refer to has been made. -/
def MadeInItems (m : Machine) : List Value → Prop
  | [] => True
  | v :: items => MadeIn m v ∧ MadeInItems m items

/-- Whatever the keys and values of entries refer to has been made. -/
def MadeInEntries (m : Machine) : List (Value × Value) → Prop
  | [] => True
  | (key, v) :: entries => MadeIn m key ∧ MadeIn m v ∧ MadeInEntries m entries

end

end Value

/-- Whatever a state refers to has been made in it. -/
structure Machine.Grounded (m : Machine) : Prop where
  store : m.store.WellFormed
  values : ∀ f x v, m.store.Binds f x v → v.MadeIn m
  transient : Stamp.transient.serial < m.stamps

/-- Whatever has been made in a state stands for itself. -/
def Renaming.made (m : Machine) : Renaming where
  stamps a b := a = b ∧ a < m.stamps
  envs a b := a = b ∧ a < m.store.chains.size
  frames a b := a = b ∧ a < m.store.frames.size
  hosts := False

section
variable {m : Machine}

theorem Number.alike_self {ρ : Renaming} (included : (Renaming.made m).Included ρ) {x : Number}
    (made : x.MadeIn m) : x.Alike ρ x := by
  cases x with
  | int n => exact .int n
  | float z => exact .float z
  | nan s => exact .nan (included.stamps ⟨rfl, made⟩)

namespace Value

mutual

/-- A value that has been made is like itself, if there is none of the host's primitives in it or
    there may be. -/
theorem alike_self : {ρ : Renaming} → (Renaming.made m).Included ρ → (v : Value) →
    (v.MadeOf fun part => ρ.hosts ∨ part.IsNative) → v.MadeIn m → v.Alike ρ v
  | _, included, .number x, _, made => .number (x.alike_self included made)
  | _, included, .list s items, native, ⟨stamp, made⟩ =>
    .list (included.stamps ⟨rfl, stamp⟩) (alikeItems_self included items
      (fun _ member part inside => native part (.list member inside)) made)
  | _, included, .tuple s items, native, ⟨stamp, made⟩ =>
    .tuple (included.stamps ⟨rfl, stamp⟩) (alikeItems_self included items
      (fun _ member part inside => native part (.tuple member inside)) made)
  | _, included, .dict s entries, native, ⟨stamp, made⟩ =>
    .dict (included.stamps ⟨rfl, stamp⟩) (alikeEntries_self included entries
      (fun _ member part inside => native part (.dict member inside)) made)
  | _, included, .closure s params body env, _, ⟨stamp, made, there⟩ =>
    .closure (included.stamps ⟨rfl, stamp⟩) (alike_self (included.trans (.toCode _)) body
      (fun _ _ => .inl trivial) made) (included.envs ⟨rfl, there⟩)
  | _, included, .primitive s op, native, stamp =>
    .primitive (included.stamps ⟨rfl, stamp⟩) fun host => (native _ .self).resolve_right
      fun own => by simp [own s op rfl] at host
  | _, _, .bool b, _, _ => .bool b
  | _, _, .symbol x, _, _ => .symbol x
  | _, _, .str text, _, _ => .str text
  | _, _, .nothing, _, _ => .nothing
  | _, _, .unit, _, _ => .unit
  | _, _, .unassigned, _, _ => .unassigned

theorem alikeItems_self : {ρ : Renaming} → (Renaming.made m).Included ρ → (items : List Value) →
    (∀ v ∈ items, v.MadeOf fun part => ρ.hosts ∨ part.IsNative) → MadeInItems m items →
    AlikeItems ρ items items
  | _, _, [], _, _ => .nil
  | _, included, v :: items, native, ⟨first, rest⟩ =>
    .cons (alike_self included v (native v List.mem_cons_self) first)
      (alikeItems_self included items
        (fun w member => native w (List.mem_cons_of_mem _ member)) rest)

theorem alikeEntries_self : {ρ : Renaming} → (Renaming.made m).Included ρ →
    (entries : List (Value × Value)) →
    (∀ v ∈ parts entries, v.MadeOf fun part => ρ.hosts ∨ part.IsNative) →
    MadeInEntries m entries → AlikeEntries ρ entries entries
  | _, _, [], _, _ => .nil
  | _, included, (key, v) :: entries, native, ⟨keys, first, rest⟩ =>
    .cons (alike_self included key (native key List.mem_cons_self) keys)
      (alike_self included v (native v (List.mem_cons_of_mem _ List.mem_cons_self)) first)
      (alikeEntries_self included entries (fun w member =>
        native w (List.mem_cons_of_mem _ (List.mem_cons_of_mem _ member))) rest)

end

end Value

theorem fits_same (bound : Nat) : Fits (fun a b => a = b ∧ a < bound) bound bound := by
  refine ⟨?_, ?_, ?_⟩
  · rintro a b ⟨rfl, small⟩
    exact ⟨small, small⟩
  · rintro a b c ⟨rfl, _⟩ ⟨rfl, _⟩
    rfl
  · rintro a b c ⟨rfl, _⟩ ⟨rfl, _⟩
    rfl

/-- A grounded state in which no name is bound to a primitive of the host mirrors itself. -/
theorem Machine.Grounded.mirrors_self (grounded : m.Grounded)
    (native : m.store.HoldsOnly Value.IsNative) : Mirrors (.made m) m m := by
  refine ⟨fits_same _, fits_same _, fits_same _, ⟨rfl, grounded.transient⟩, id, ?_, ?_, rfl, rfl⟩
  · intro env env' related
    obtain rfl : env = env' := EnvRef.ext related.1
    exact List.forall₂_same.mpr fun f member => ⟨rfl, grounded.store.chains env f member⟩
  · intro f f' related
    obtain rfl : f = f' := FrameRef.ext related.1
    refine List.forall₂_same.mpr ?_
    rintro ⟨x, v⟩ member
    have binds := Frame.get?_of_mem_entries (grounded.store.names f) member
    refine ⟨rfl, ?_⟩
    by_cases pending : v = .unassigned
    · subst pending
      exact .unassigned
    · exact v.alike_self (.refl _)
        (fun part inside => .inr (native f x v binds pending part inside))
        (grounded.values f x v binds)

end

/-! ## Placeholders -/

section
variable {room depth : Nat} {e : Value} {env : EnvRef} {m m' : Machine} {ρ : Renaming}

/-- The state in which the names of a `letrec` have placeholders mirrors itself if the one before
    does, with what has been made for the names standing for itself as well. -/
theorem LetRecOpening.mirrors_self (run : LetRecOpening e env m) (mirrors : Mirrors ρ m m)
    (envs : ρ.envs env.index env.index) :
    ∃ σ, ρ.Included σ ∧ Mirrors σ run.opened run.opened ∧
      σ.envs run.inner.index run.inner.index ∧ σ.frames run.frame.index run.frame.index := by
  obtain ⟨fr, bound, made, same⟩ := Eval.extend_eq_ok run.entry
  obtain ⟨_, rfl⟩ := Frame.bind_eq_ok.mp bound
  refine ⟨ρ.prolonged m m 0 1 1, included_prolonged .., ?_, ?_, ?_⟩
  · rw [same]
    exact mirrors.extend envs (ofPairs_alike (zip_alike _ (alike_placeholders _)))
  · rw [made]
    exact prolonged_one.mpr (.inr ⟨rfl, rfl⟩)
  · exact prolonged_one.mpr (.inr ⟨rfl, rfl⟩)

/-- The initializers of a `letrec` that has been made are like themselves. -/
theorem LetRecOpening.inits_alike (run : LetRecOpening e env m) (grounded : m.Grounded)
    (made : e.MadeIn m) : List.Forall₂ (Value.Alike (Renaming.made m).code) run.bindings.inits
      run.bindings.inits := by
  have transient : (Renaming.made m).code.stamps Stamp.transient.serial Stamp.transient.serial :=
    ⟨rfl, grounded.transient⟩
  have tallies := Phrase.of_alike transient
    (e.alike_self (.toCode _) (fun _ _ => .inl trivial) made)
  rw [run.phrase] at tallies
  cases tallies with
  | ok alike =>
    cases alike with
    | letRec parts => exact parts.inits

/-- Binding the names of a `letrec` again fills placeholders and does nothing else to the store. -/
theorem LetRecRun.fills (run : LetRecRun room depth e env m)
    (adds : Adds run.opened.store run.initialized.store) (tied : run.Tied m') :
    run.initialized.store.Fills run.frame m'.store := by
  have before : run.initialized.store.frame run.frame =
      ⟨run.bindings.params.zip (run.bindings.params.map fun _ => .unassigned)⟩ :=
    (adds.frame _ run.frame_opened.1).trans run.frame_eq
  have names :
      (run.initialized.store.frame run.frame).names = (m'.store.frame run.frame).names := by
    rw [before, tied.frame]
    exact (Frame.keys_zip (List.length_map _).symm).trans (Frame.keys_zip run.lengths).symm
  have pending (x : Symbol) (v : Value)
      (found : (run.initialized.store.frame run.frame).get? x = some v) : v = .unassigned := by
    have member := Frame.mem_entries_of_get? found
    rw [before] at member
    obtain ⟨_, _, rfl⟩ := List.mem_map.mp (List.of_mem_zip member).2
    rfl
  have filled (f : FrameRef) :
      Frame.Filled (f ≠ run.frame) (run.initialized.store.frame f) (m'.store.frame f) := by
    by_cases here : f = run.frame
    · subst here
      exact .of_pending (fun apart => apart rfl) names pending
    · rw [tied.machine]
      show Frame.Filled _ _ ((run.initialized.store.assignAll _ _).frame f)
      rw [Store.assignAll, Store.frame_modifyFrame_other here]
      exact .refl _ _
  refine ⟨⟨?_, ?_, fun f => ⟨?_, fun _ seen => absurd trivial seen⟩⟩, filled⟩
  · rw [tied.machine]
    rfl
  · rw [tied.machine]
    exact (Store.frames_size_modifyFrame ..).symm
  · by_cases here : f = run.frame
    · rw [here, names]
    · rw [(filled f).same here]

/-! ## The second evaluation -/

/-- From the state that the first evaluation has left, with the placeholders filled, the
    initializers yield the same again, up to what has been made on the way. -/
theorem LetRecRun.replays (run : LetRecRun room depth e env m)
    (mirrors : Mirrors ρ run.opened run.opened)
    (inits : List.Forall₂ (Value.Alike ρ.code) run.bindings.inits run.bindings.inits)
    (envs : ρ.envs run.inner.index run.inner.index)
    (adds : Adds run.opened.store run.initialized.store) (tied : run.Tied m') (r : Record) :
    ∃ σ seconds beside again, run.bindings.inits.mapM (eval room depth · run.inner)
        (m'.addRecord r).nextStamp.2 = .ok seconds again ∧
      ρ.Included σ ∧ Mirrors σ run.initialized beside ∧
      run.initialized.stamps ≤ beside.stamps ∧ beside.Fills run.frame again ∧
      List.Forall₂ (Value.Alike σ) run.values seconds := by
  -- What the first evaluation does beside itself tells that it has only taken stamps.
  have itself := mapM_alike (eval_alike room depth) mirrors inits envs
  rw [run.initializers] at itself
  have more : run.opened.stamps ≤ run.initialized.stamps := by
    cases itself with
    | ok evolves _ _ => exact evolves.moreStamps
  -- The state that it leaves, with what it has told the host taken back.
  let left : Machine := { run.initialized.nextStamp.2 with
    notes := run.opened.notes, records := run.opened.records }
  have later : Mirrors ρ run.opened left :=
    mirrors.goOn (Nat.le_succ_of_le more) adds.chains adds.frames
      (fun related => adds.chain _ (mirrors.hasEnv related).2)
      (fun related => adds.frame _ (mirrors.hasFrame related).2) rfl rfl
  have ends := mapM_alike (eval_alike room depth) later inits envs
  rw [run.initializers] at ends
  generalize second : run.bindings.inits.mapM (eval room depth · run.inner) left = result at ends
  cases ends with
  | @ok σ _ seconds _ beside evolves mirrors values =>
    have stores : run.initialized.store.Fills run.frame m'.store := run.fills adds tied
    have fills : left.Fills run.frame (m'.addRecord r).nextStamp.2 := by
      refine ⟨stores, ?_, ?_⟩
      · rw [tied.machine]
        rfl
      · rw [tied.machine]
        rfl
    obtain ⟨again, done, filled⟩ :=
      (eval_follows room depth run.frame).mapM fills run.inner _ _ _ second
    exact ⟨σ, seconds, beside, again, done, evolves.included, mirrors,
      Nat.le_of_succ_le evolves.moreStamps, filled, values⟩

end

/-! ## What has been made twice -/

/-- A renaming pairs what two evaluations have made since a state, one for one: what was there
    before stands for itself, and paired environments and frames have the same contents up to the
    renaming, but for one frame that both evaluations share. -/
structure Renaming.Pairs (σ : Renaming) (m : Machine) (shared : FrameRef) (n : Machine) : Prop where
  known : (Renaming.made m).Included σ
  stamps : Fits σ.stamps n.stamps n.stamps
  envs : Fits σ.envs n.store.chains.size n.store.chains.size
  frames : Fits σ.frames n.store.frames.size n.store.frames.size
  chain : ∀ {env env' : EnvRef}, σ.envs env.index env'.index →
    List.Forall₂ (fun f g => σ.frames f.index g.index) (n.store.chain env) (n.store.chain env')
  frame : ∀ {f g : FrameRef}, σ.frames f.index g.index →
    f = shared ∧ g = shared ∨ (n.store.frame f).Alike σ (n.store.frame g)

/-- A store has only been added to, but for one frame. -/
structure AddsBut (patched : FrameRef) (s t : Store) : Prop extends Fixes s t where
  frame : ∀ f, s.HasFrame f → f ≠ patched → t.frame f = s.frame f

theorem Store.Fills.addsBut {patched : FrameRef} {s t u : Store} (fills : s.Fills patched t)
    (adds : Adds t u) : AddsBut patched s u := by
  have shape := fills.shape
  have made {f : FrameRef} (there : s.HasFrame f) : t.HasFrame f := by
    rwa [Store.HasFrame, ← shape.frames]
  refine ⟨⟨⟨?_, ?_, ?_⟩, ?_⟩, ?_⟩
  · rw [shape.frames]
    exact adds.frames
  · rw [shape.chains]
    exact adds.chains
  · intro f there
    rw [adds.names f (made there), (shape.frame f).names]
  · intro env there
    have made : t.HasEnv env := by rwa [Store.HasEnv, ← shape.chains]
    rw [adds.chain env made, shape.chain]
  · intro f there apart
    rw [adds.frame f (made there), (fills.frame f).same apart]

/-- What mirrors each other is paired in a state that has only been added to since, but for the
    frame that is shared. -/
theorem Mirrors.pairs {σ : Renaming} {m left right n : Machine} {shared : FrameRef}
    (mirrors : Mirrors σ left right) (known : (Renaming.made m).Included σ)
    (itself : σ.frames shared.index shared.index) (adds : AddsBut shared left.store n.store)
    (adds' : AddsBut shared right.store n.store) (stamps : left.stamps ≤ n.stamps)
    (stamps' : right.stamps ≤ n.stamps) : σ.Pairs m shared n := by
  refine ⟨known, mirrors.stamps.widen stamps stamps', mirrors.envs.widen adds.chains adds'.chains,
    mirrors.frames.widen adds.frames adds'.frames, ?_, ?_⟩
  · intro env env' related
    obtain ⟨there, there'⟩ := mirrors.hasEnv related
    rw [adds.chain env there, adds'.chain env' there']
    exact mirrors.chain related
  · intro f g related
    obtain ⟨there, there'⟩ := mirrors.hasFrame related
    by_cases here : f = shared
    · exact .inl ⟨here, (mirrors.frame_eq_iff itself related).mp here⟩
    · have here' := (mirrors.frame_eq_iff itself related).not.mp here
      rw [adds.frame f there here, adds'.frame g there' here']
      exact .inr (mirrors.frame related)

/-! ## The values that the body sees -/

/-- The initializers of a `letrec` have been evaluated twice, and its body is about to be evaluated.
    It sees the second values in a frame of its own, in front of the frame in which closures see the
    first ones, and each of the second values is the same as the first up to what has been made
    since. -/
structure Replayed (params : List Symbol) (values seconds : List Value) (σ : Renaming)
    (env : EnvRef) (m : Machine) (scope : EnvRef) (bound patched : FrameRef) (n : Machine) :
    Prop where
  chain : n.store.chain scope = bound :: patched :: m.store.chain env
  frameBound : n.store.frame bound = ⟨params.zip seconds⟩
  framePatched : n.store.frame patched = ⟨params.zip values⟩
  alike : List.Forall₂ (fun v w => v.Alike σ w ∧ v.LooksLike w) values seconds
  pairs : σ.Pairs m patched n

section
variable {room depth : Nat} {e : Value} {env : EnvRef} {m : Machine}

/-- The second values are bound in front of the first ones, which stay as they are. -/
theorem LetRecRun.replayed (run : LetRecRun room depth e env m) {m' beside again : Machine}
    {seconds : List Value} {σ : Renaming} (first : Adds run.opened.store run.initialized.store)
    (tied : run.Tied m') (adds : Adds m'.store again.store)
    (known : (Renaming.made m).Included σ)
    (shared : σ.frames run.frame.index run.frame.index)
    (mirrors : Mirrors σ run.initialized beside) (stamps : run.initialized.stamps ≤ beside.stamps)
    (fills : beside.Fills run.frame again)
    (alike : List.Forall₂ (Value.Alike σ) run.values seconds) :
    ∃ scope n bound, Eval.extend run.inner run.bindings.params seconds again = .ok scope n ∧
      Replayed run.bindings.params run.values seconds σ env m scope bound run.frame n := by
  have distinct := (Phrase.shaped_of run.phrase).1
  have entry := Eval.extend_zip (run.lengths.trans alike.length_eq) distinct run.inner again
  have later := adds_of_extend entry
  have stamps' := Nat.le_of_eq fills.stamps
  refine ⟨_, _, again.store.nextFrame, entry, ?_, ?_, ?_, ?_, ?_⟩
  · show (again.store.extend _ _).2.chain _ = _
    rw [Store.chain_extend, if_pos rfl, adds.chain _ tied.hasEnv, tied.chain]
  · show (again.store.extend _ _).2.frame _ = _
    rw [Store.frame_extend, if_pos rfl]
  · rw [later.frame _ (adds.hasFrame tied.hasFrame), adds.frame _ tied.hasFrame, tied.frame]
  · exact alike.imp fun _ _ alike => ⟨alike, alike.looks⟩
  · exact mirrors.pairs known shared ((run.fills first tied).addsBut (adds.trans later))
      (fills.store.addsBut later) (Nat.le_trans stamps stamps') stamps'

/-- Two more calls have to nest for the second evaluation to begin. -/
theorem LetRecRun.exhausted (run : LetRecRun room depth e env m) (shallow : depth < 2) :
    ∃ m', eval room (depth + 1) e env m = .error .exhausted m' := by
  obtain ⟨tied, rebound⟩ := run.rebindHead_ok
  rw [run.eval_eq rebound]
  match depth, shallow with
  | 0, _ => exact ⟨_, rfl⟩
  | 1, _ => exact ⟨_, eval_of_phrase (Phrase.of_application _)⟩

/-- Where `define` is written neither in a `letrec` nor in a closure around, and no name is bound to
    a primitive of the host, the initializers yield the same again when they are evaluated a second
    time, unless depth runs out: the same up to references to what has been made since. -/
theorem eval_letRec_replays (run : LetRecRun room depth e env m) (free : e.DefineFree)
    (closures : m.store.DefineFree) (native : m.store.HoldsOnly Value.IsNative)
    (grounded : m.Grounded) (made : e.MadeIn m) (there : m.store.HasEnv env) :
    depth < 2 ∧ (∃ m', eval room (depth + 1) e env m = .error .exhausted m') ∨
    ∃ k start, depth = k + 2 ∧ start.store.chain run.inner = run.frame :: m.store.chain env ∧
      start.store.frame run.frame = ⟨run.bindings.params.zip run.values⟩ ∧
      eval room (depth + 1) e env m =
        (do
          let seconds ← run.bindings.inits.mapM (eval room (k + 1) · run.inner)
          let scope ← Eval.extend run.inner run.bindings.params seconds
          eval room (k + 1) run.bindings.body scope) start ∧
      ((∃ m', run.bindings.inits.mapM (eval room (k + 1) · run.inner) start =
          .error .exhausted m') ∨
        ∃ seconds again scope n bound σ,
          run.bindings.inits.mapM (eval room (k + 1) · run.inner) start = .ok seconds again ∧
          Eval.extend run.inner run.bindings.params seconds again = .ok scope n ∧
          Replayed run.bindings.params run.values seconds σ env m scope bound run.frame n) := by
  by_cases shallow : depth < 2
  · exact .inl ⟨shallow, run.exhausted shallow⟩
  obtain ⟨k, rfl⟩ : ∃ k, depth = k + 2 := ⟨depth - 2, by omega⟩
  have distinct := (Phrase.shaped_of run.phrase).1
  obtain ⟨closures', adds, parts⟩ := (purity room).initialized run closures free
  obtain ⟨m', rebound⟩ := run.rebindHead_ok
  have tied := run.tied adds rebound
  let start := (m'.addRecord (.letrecBound run.bindings.params)).nextStamp.2
  have goes := (run.eval_eq rebound).trans (eval_application distinct)
  refine .inr ⟨k, start, rfl, tied.chain, tied.frame, goes, ?_⟩
  have agrees := Agrees.mapM (fun init => eval_agrees (Nat.le_refl room) (Nat.le_succ (k + 1)) init
    run.inner) run.bindings.inits start
  rcases agrees with same | ⟨h, m', stopped, rfl | ⟨apart, _⟩⟩
  · have mirrors := grounded.mirrors_self native
    obtain ⟨ρ, known, mirrors, inner, shared⟩ :=
      run.toLetRecOpening.mirrors_self mirrors ⟨rfl, there⟩
    have inits := (run.inits_alike grounded made).imp fun _ _ => Value.Alike.mono known.code
    obtain ⟨σ, seconds, beside, again, second, included, mirrors, stamps, fills, values⟩ :=
      run.replays mirrors inits inner adds tied (.letrecBound run.bindings.params)
    have second := same.symm.trans second
    have closures : m'.store.DefineFree := .of_rebindHead closures' parts rebound
    have grown : Adds start.store again.store :=
      adds_of_mapM (Phrase.defineFree_of run.phrase free).1 closures second
    obtain ⟨scope, n, bound, entry, replayed⟩ := run.replayed adds tied grown
      (known.trans included) (included.frames shared) mirrors stamps fills values
    exact .inr ⟨seconds, again, scope, n, bound, σ, second, entry, replayed⟩
  · exact .inl ⟨_, stopped⟩
  · exact absurd rfl apart

end

/-! ## A state with a global environment -/

private theorem primitives_madeIn {m : Machine} {ops : List Op} {serial : Nat} {x : Symbol}
    {v : Value} (enough : serial + ops.length ≤ m.stamps)
    (member : (x, v) ∈ Builtin.primitives serial ops) : v.MadeIn m := by
  induction ops generalizing serial with
  | nil => cases member
  | cons op ops ih =>
    rw [List.length_cons] at enough
    rcases List.mem_cons.mp member with here | later
    · cases here
      show serial < m.stamps
      omega
    · exact ih (by omega) later

/-- The values that a global environment starts with have been made with it. -/
theorem builtin_madeIn {m : Machine} {serial : Nat} {fr : Frame} {x : Symbol} {v : Value}
    (enough : serial + Builtin.stampCount ≤ m.stamps) (member : fr ∈ Builtin.frames serial)
    (found : fr.get? x = some v) : v.MadeIn m := by
  have entry := Frame.mem_entries_of_get? found
  simp only [Builtin.frames, List.mem_cons, List.not_mem_nil, or_false] at member
  simp only [Builtin.stampCount] at enough
  rcases member with rfl | rfl | rfl
  · rcases List.mem_cons.mp entry with here | later
    · cases here
      refine ⟨?_, trivial⟩
      show serial < m.stamps
      omega
    · exact primitives_madeIn (by omega) later
  · exact primitives_madeIn (by omega) entry
  · simp only [Builtin.booleanFrame, List.mem_cons, List.not_mem_nil, or_false] at entry
    rcases entry with here | here <;> cases here <;> trivial

theorem grounded_newGlobal : Machine.empty.newGlobal.2.Grounded := by
  refine ⟨(Reached.global .start).wellFormed.1, ?_, by decide⟩
  intro f x v binds
  rw [newGlobal_store] at binds
  rcases Store.binds_newEnvOf binds with binds | ⟨_, fr, member, found⟩
  · cases binds
  · exact builtin_madeIn (Nat.le_refl _) member found

/-- The names, initializers and body of
    `(letrec ((loop (lambda (n) (loop n))) (held (cons (lambda (n) loop) nil))) held)`. -/
def heldClosure : Form.Bindings where
  params := [⟨"loop"⟩, ⟨"held"⟩]
  inits := [
    .list .transient [.symbol ⟨"lambda"⟩, .list .transient [.symbol ⟨"n"⟩],
      .list .transient [.symbol ⟨"loop"⟩, .symbol ⟨"n"⟩]],
    .list .transient [.symbol ⟨"cons"⟩, .list .transient [.symbol ⟨"lambda"⟩,
      .list .transient [.symbol ⟨"n"⟩], .symbol ⟨"loop"⟩], .symbol ⟨"nil"⟩]]
  body := .symbol ⟨"held"⟩

private theorem yields_heldClosure :
    let pairs := heldClosure.params.zip (heldClosure.params.map fun _ => .unassigned)
    yields (heldClosure.inits.mapM (eval 9 8 · Machine.empty.newGlobal.2.store.nextEnv)
      (Machine.empty.newGlobal.2.mapStore fun s =>
        (s.extend Machine.empty.newGlobal.1 ⟨pairs⟩).2)) = true := by
  decide +kernel

/-- A function that calls itself and a list that holds a function are made twice, and the body sees
    the second ones. -/
theorem eval_letRec_replays_heldClosure :
    let env := Machine.empty.newGlobal.1
    let m := Machine.empty.newGlobal.2
    let bindings := (heldClosure.params.zip heldClosure.inits).map fun (p, init) =>
      Value.list .transient [.symbol p, init]
    let e := Value.list .transient
      [.symbol Keyword.letRec.symbol, .list .transient bindings, heldClosure.body]
    e.DefineFree ∧ m.store.DefineFree ∧ m.store.HoldsOnly Value.IsNative ∧ m.Grounded ∧
      e.MadeIn m ∧ m.store.HasEnv env ∧
      ∃ run : LetRecRun 9 8 e env m, ∃ seconds scope n bound σ,
        run.values.length = 2 ∧ eval 9 9 e env m = eval 9 7 heldClosure.body scope n ∧
        Replayed heldClosure.params run.values seconds σ env m scope bound run.frame n := by
  intro env m bindings e
  have free : e.DefineFree := by
    simp [e, bindings, heldClosure, Keyword.symbol, Keyword.name]
  have taken : Stamp.transient.serial < m.stamps := by decide
  have made : e.MadeIn m := by
    simp [e, bindings, heldClosure, Value.MadeIn, Value.MadeInItems, taken]
  have native : m.store.HoldsOnly Value.IsNative := (Reached.global .start).holdsNative
  have there : m.store.HasEnv env := hasEnv_newGlobal .empty
  have phrase : Phrase.of e = .ok (.letRec heldClosure) := by rfl
  have entry : Eval.extend env heldClosure.params (heldClosure.params.map fun _ => .unassigned) m =
    .ok m.store.nextEnv _ := Eval.extend_zip rfl (by decide) env m
  obtain ⟨values, initialized, first⟩ := exists_of_yields yields_heldClosure
  let run : LetRecRun 9 8 e env m :=
    ⟨⟨heldClosure, m.store.nextEnv, _, phrase, entry⟩, values, initialized, first⟩
  have done : yields (eval 9 9 e env m) = true := by decide +kernel
  refine ⟨free, defineFree_newGlobal, native, grounded_newGlobal, made, there, run, ?_⟩
  rcases eval_letRec_replays run free defineFree_newGlobal native grounded_newGlobal made there with
    ⟨shallow, _⟩ | ⟨k, start, depth, _, _, goes, second⟩
  · omega
  obtain rfl : k = 6 := by omega
  rcases second with ⟨m', stopped⟩ | ⟨seconds, again, scope, n, bound, σ, second, entry, replayed⟩
  · rw [goes] at done
    simp [Bind.bind, EStateM.bind, stopped, yields] at done
  · refine ⟨seconds, scope, n, bound, σ, length_of_mapM first, ?_, replayed⟩
    rw [goes, bind_ok second, bind_ok entry]

end FrameLisp
