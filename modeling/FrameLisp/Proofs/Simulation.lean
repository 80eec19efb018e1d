import FrameLisp.Eval.Evaluate
import FrameLisp.Proofs.Renaming

/-!
Two runs side by side. One state `Mirrors` another under a renaming if whatever corresponds has the
same contents up to the renaming. Computations that are the same up to a renaming, from states that
mirror each other, end alike (`EndsAlike`): with alike values or the same fault, and in states that
mirror each other again, under a renaming that has only gained what either of them has made since.
There is one lemma for each operation of the store and each primitive, `EndsAlike.bind` for
sequences, and `eval_alike` for evaluation.
-/
namespace FrameLisp

/-! ## Correspondences of numbers -/

/-- A correspondence of numbers below two bounds in which none corresponds to two. -/
structure Fits (R : Nat → Nat → Prop) (a b : Nat) : Prop where
  bounds : ∀ {x y}, R x y → x < a ∧ y < b
  unique : Relator.BiUnique R

/-- A correspondence with so many further pairs of numbers, one after the other from two bounds. -/
def Prolonged (R : Nat → Nat → Prop) (a b count : Nat) (x y : Nat) : Prop :=
  R x y ∨ ∃ i < count, x = a + i ∧ y = b + i

section
variable {R : Nat → Nat → Prop} {a b count x y i : Nat}

@[simp]
theorem prolonged_zero : Prolonged R a b 0 = R := by
  funext x y
  simp [Prolonged]

theorem prolonged_one : Prolonged R a b 1 x y ↔ R x y ∨ x = a ∧ y = b := by
  simp [Prolonged]

theorem Fits.widen (fits : Fits R a b) {a' b' : Nat} (moreLeft : a ≤ a') (moreRight : b ≤ b') :
    Fits R a' b' := by
  refine ⟨fun related => ?_, fits.unique⟩
  have := fits.bounds related
  omega

theorem Fits.prolonged (fits : Fits R a b) (count : Nat) :
    Fits (Prolonged R a b count) (a + count) (b + count) := by
  refine ⟨?_, ?_, ?_⟩
  · rintro x y (old | ⟨i, small, rfl, rfl⟩)
    · have := fits.bounds old
      omega
    · omega
  · rintro x y z (old | ⟨i, _, rfl, rfl⟩) (old' | ⟨j, _, rfl, same⟩)
    · exact fits.unique.1 old old'
    · have := fits.bounds old
      omega
    · have := fits.bounds old'
      omega
    · omega
  · rintro x y z (old | ⟨i, _, rfl, rfl⟩) (old' | ⟨j, _, same, rfl⟩)
    · exact fits.unique.2 old old'
    · have := fits.bounds old
      omega
    · have := fits.bounds old'
      omega
    · omega

end

/-! ## Frames -/

/-- Frames that bind the same names in the same order to alike values. -/
def Frame.Alike (ρ : Renaming) (f g : Frame) : Prop :=
  List.Forall₂ (EntryAlike ρ) f.entries g.entries

section
variable {ρ σ : Renaming} {f g : Frame} {pairs pairs' : List (Symbol × Value)}

theorem Frame.Alike.mono (included : ρ.Included σ) (alike : f.Alike ρ g) : f.Alike σ g :=
  List.Forall₂.imp (fun _ _ => EntryAlike.mono included) alike

theorem ofPairs_alike (alike : List.Forall₂ (EntryAlike ρ) pairs pairs') :
    (Frame.ofPairs pairs).Alike ρ (Frame.ofPairs pairs') :=
  insertAll_alike .nil alike

theorem zip_alike (params : List Symbol) {args args' : List Value}
    (alike : List.Forall₂ (Value.Alike ρ) args args') :
    List.Forall₂ (EntryAlike ρ) (params.zip args) (params.zip args') := by
  induction alike generalizing params with
  | nil => simp
  | cons first _ ih =>
    cases params with
    | nil => exact .nil
    | cons x params => exact .cons ⟨rfl, first⟩ (ih params)

theorem bind_alike (params : List Symbol) {args args' : List Value}
    (alike : List.Forall₂ (Value.Alike ρ) args args') :
    Tallies (Frame.Alike ρ) (Frame.bind params args) (Frame.bind params args') := by
  simp only [Frame.bind, alike.length_eq]
  split
  · exact .ok (ofPairs_alike (zip_alike params alike))
  · exact .error (.refl _)

end

/-! ## States -/

/-- One state is like another under a renaming: what corresponds has been made, has the same
    contents up to the renaming, and corresponds to nothing else. -/
structure Mirrors (ρ : Renaming) (m n : Machine) : Prop where
  stamps : Fits ρ.stamps m.stamps n.stamps
  envs : Fits ρ.envs m.store.chains.size n.store.chains.size
  frames : Fits ρ.frames m.store.frames.size n.store.frames.size
  transient : ρ.stamps Stamp.transient.serial Stamp.transient.serial
  /-- No primitive of the host can be called. -/
  native : ¬ ρ.hosts
  chain : ∀ {env env' : EnvRef}, ρ.envs env.index env'.index →
    List.Forall₂ (fun f g => ρ.frames f.index g.index) (m.store.chain env) (n.store.chain env')
  frame : ∀ {f g : FrameRef}, ρ.frames f.index g.index →
    (m.store.frame f).Alike ρ (n.store.frame g)
  notes : m.notes = n.notes
  records : m.records = n.records

/-- A renaming has gained nothing on the right but what has been made there since. -/
structure Evolves (ρ : Renaming) (n : Machine) (σ : Renaming) (n' : Machine) : Prop where
  included : ρ.Included σ
  envs : ∀ {a b}, σ.envs a b → ρ.envs a b ∨ n.store.chains.size ≤ b
  frames : ∀ {a b}, σ.frames a b → ρ.frames a b ∨ n.store.frames.size ≤ b
  moreStamps : n.stamps ≤ n'.stamps
  moreEnvs : n.store.chains.size ≤ n'.store.chains.size
  moreFrames : n.store.frames.size ≤ n'.store.frames.size

/-- A renaming with what two states make next. -/
def Renaming.prolonged (ρ : Renaming) (m n : Machine) (stamps envs frames : Nat) : Renaming where
  stamps := Prolonged ρ.stamps m.stamps n.stamps stamps
  envs := Prolonged ρ.envs m.store.chains.size n.store.chains.size envs
  frames := Prolonged ρ.frames m.store.frames.size n.store.frames.size frames
  hosts := ρ.hosts

section
variable {ρ σ τ : Renaming} {m n n' n'' : Machine}

theorem Evolves.refl (ρ : Renaming) (n : Machine) : Evolves ρ n ρ n :=
  ⟨.refl ρ, .inl, .inl, Nat.le_refl _, Nat.le_refl _, Nat.le_refl _⟩

/-- Nothing has been made. -/
theorem Evolves.of_sizes (ρ : Renaming) (stamps : n'.stamps = n.stamps)
    (envs : n'.store.chains.size = n.store.chains.size)
    (frames : n'.store.frames.size = n.store.frames.size) : Evolves ρ n ρ n' :=
  ⟨.refl ρ, .inl, .inl, Nat.le_of_eq stamps.symm, Nat.le_of_eq envs.symm,
    Nat.le_of_eq frames.symm⟩

theorem Evolves.trans (first : Evolves ρ n σ n') (second : Evolves σ n' τ n'') :
    Evolves ρ n τ n'' := by
  refine ⟨first.included.trans second.included, ?_, ?_,
    Nat.le_trans first.moreStamps second.moreStamps, Nat.le_trans first.moreEnvs second.moreEnvs,
    Nat.le_trans first.moreFrames second.moreFrames⟩
  · intro a b related
    rcases second.envs related with before | new
    · exact first.envs before
    · exact .inr (Nat.le_trans first.moreEnvs new)
  · intro a b related
    rcases second.frames related with before | new
    · exact first.frames before
    · exact .inr (Nat.le_trans first.moreFrames new)

theorem included_prolonged (ρ : Renaming) (m n : Machine) (stamps envs frames : Nat) :
    ρ.Included (ρ.prolonged m n stamps envs frames) :=
  ⟨.inl, .inl, .inl, id⟩

theorem evolves_prolonged (ρ : Renaming) (m : Machine) {stamps envs frames : Nat}
    (moreStamps : n.stamps ≤ n'.stamps)
    (moreEnvs : n.store.chains.size ≤ n'.store.chains.size)
    (moreFrames : n.store.frames.size ≤ n'.store.frames.size) :
    Evolves ρ n (ρ.prolonged m n stamps envs frames) n' := by
  refine ⟨included_prolonged .., ?_, ?_, moreStamps, moreEnvs, moreFrames⟩
  · rintro a b (old | ⟨i, _, _, rfl⟩)
    · exact .inl old
    · exact .inr (Nat.le_add_right _ _)
  · rintro a b (old | ⟨i, _, _, rfl⟩)
    · exact .inl old
    · exact .inr (Nat.le_add_right _ _)

end

namespace Mirrors

variable {ρ : Renaming} {m n : Machine} {env env' other other' : EnvRef} {f g f' g' : FrameRef}

theorem transient_code (mirrors : Mirrors ρ m n) :
    ρ.code.stamps Stamp.transient.serial Stamp.transient.serial :=
  mirrors.transient

theorem hasEnv (mirrors : Mirrors ρ m n) (envs : ρ.envs env.index env'.index) :
    m.store.HasEnv env ∧ n.store.HasEnv env' :=
  mirrors.envs.bounds envs

theorem hasFrame (mirrors : Mirrors ρ m n) (frames : ρ.frames f.index g.index) :
    m.store.HasFrame f ∧ n.store.HasFrame g :=
  mirrors.frames.bounds frames

theorem env_eq_iff (mirrors : Mirrors ρ m n) (envs : ρ.envs env.index env'.index)
    (others : ρ.envs other.index other'.index) : other = env ↔ other' = env' := by
  rw [EnvRef.ext_iff, EnvRef.ext_iff]
  exact Relator.rel_eq mirrors.envs.unique others envs

theorem frame_eq_iff (mirrors : Mirrors ρ m n) (frames : ρ.frames f.index f'.index)
    (others : ρ.frames g.index g'.index) : g = f ↔ g' = f' := by
  rw [FrameRef.ext_iff, FrameRef.ext_iff]
  exact Relator.rel_eq mirrors.frames.unique others frames

/-! ### Reading -/

theorem get? (mirrors : Mirrors ρ m n) (frames : ρ.frames f.index g.index) (x : Symbol) :
    Option.Rel (Value.Alike ρ) ((m.store.frame f).get? x) ((n.store.frame g).get? x) :=
  get?_alike (mirrors.frame frames) x

theorem binds (mirrors : Mirrors ρ m n) (frames : ρ.frames f.index g.index) (x : Symbol) :
    (m.store.frame f).binds x = (n.store.frame g).binds x := by
  have found := mirrors.get? frames x
  unfold Frame.binds
  revert found
  generalize (m.store.frame f).get? x = a
  generalize (n.store.frame g).get? x = b
  rintro (_ | _) <;> rfl

theorem binding? (mirrors : Mirrors ρ m n) (envs : ρ.envs env.index env'.index) (x : Symbol) :
    Option.Rel (Value.Alike ρ) (m.store.binding? env x) (n.store.binding? env' x) := by
  have chains := mirrors.chain envs
  unfold Store.binding?
  generalize m.store.chain env = fs at chains
  generalize n.store.chain env' = gs at chains
  induction chains with
  | nil => exact .none
  | @cons f g _ _ first _ ih =>
    rw [List.findSome?_cons, List.findSome?_cons]
    have found := mirrors.get? first x
    generalize (m.store.frame f).get? x = a at found
    generalize (n.store.frame g).get? x = b at found
    cases found with
    | none => exact ih
    | some alike => exact .some alike

theorem lookup (mirrors : Mirrors ρ m n) (envs : ρ.envs env.index env'.index) (x : Symbol) :
    Tallies (Value.Alike ρ) (m.store.lookup env x) (n.store.lookup env' x) := by
  have found := mirrors.binding? envs x
  unfold Store.lookup
  generalize m.store.binding? env x = a at found
  generalize n.store.binding? env' x = b at found
  cases found with
  | none => exact .error (.refl _)
  | some alike =>
    cases alike with
    | unassigned => exact .error (.refl _)
    | number same => exact .ok (.number same)
    | list stamps each => exact .ok (.list stamps each)
    | tuple stamps each => exact .ok (.tuple stamps each)
    | dict stamps each => exact .ok (.dict stamps each)
    | closure stamps bodies envs => exact .ok (.closure stamps bodies envs)
    | primitive stamps own => exact .ok (.primitive stamps own)
    | _ => constructor; constructor

theorem find? (mirrors : Mirrors ρ m n) (envs : ρ.envs env.index env'.index) (x : Symbol) :
    Option.Rel (fun f g => ρ.frames f.index g.index) (m.store.find? env x)
      (n.store.find? env' x) := by
  have chains := mirrors.chain envs
  unfold Store.find?
  generalize m.store.chain env = fs at chains
  generalize n.store.chain env' = gs at chains
  induction chains with
  | nil => exact .none
  | @cons f g _ _ first _ ih =>
    rw [List.find?_cons, List.find?_cons, mirrors.binds first x]
    split
    · exact .some first
    · exact ih

theorem headFor (mirrors : Mirrors ρ m n) (envs : ρ.envs env.index env'.index)
    (params : List Symbol) {args args' : List Value}
    (alike : List.Forall₂ (Value.Alike ρ) args args') :
    Tallies (fun f g => ρ.frames f.index g.index) (m.store.headFor env params args)
      (n.store.headFor env' params args') := by
  have chains := mirrors.chain envs
  simp only [Store.headFor, alike.length_eq]
  generalize m.store.chain env = fs at chains
  generalize n.store.chain env' = gs at chains
  split
  · cases chains with
    | nil => exact .error (.refl _)
    | cons first _ => exact .ok first
  · exact .error (.refl _)

/-! ### Writing -/

theorem takeStamps (mirrors : Mirrors ρ m n) (count : Nat) :
    Mirrors (ρ.prolonged m n count 0 0) { m with stamps := m.stamps + count }
      { n with stamps := n.stamps + count } := by
  have included := included_prolonged ρ m n count 0 0
  refine ⟨mirrors.stamps.prolonged count, ?_, ?_, .inl mirrors.transient, mirrors.native, ?_, ?_,
    mirrors.notes, mirrors.records⟩
  · simpa only [Renaming.prolonged, prolonged_zero] using mirrors.envs
  · simpa only [Renaming.prolonged, prolonged_zero] using mirrors.frames
  · intro env env' envs
    simp only [Renaming.prolonged, prolonged_zero] at envs ⊢
    exact mirrors.chain envs
  · intro f g frames
    simp only [Renaming.prolonged, prolonged_zero] at frames
    exact (mirrors.frame frames).mono included

/-- The contents of frames, old and new, after alike frames have been added. -/
private theorem added_frame {σ : Renaming} (mirrors : Mirrors ρ m n) (included : ρ.Included σ)
    {fr fr' : Frame} (alike : fr.Alike ρ fr') (related : Prolonged ρ.frames m.store.frames.size
      n.store.frames.size 1 g.index g'.index) :
    (if g = m.store.nextFrame then fr else m.store.frame g).Alike σ
      (if g' = n.store.nextFrame then fr' else n.store.frame g') := by
  rcases prolonged_one.mp related with old | ⟨here, here'⟩
  · obtain ⟨there, there'⟩ := mirrors.hasFrame old
    rw [if_neg (Store.ne_nextFrame there), if_neg (Store.ne_nextFrame there')]
    exact (mirrors.frame old).mono included
  · have new : g = m.store.nextFrame := FrameRef.ext here
    have new' : g' = n.store.nextFrame := FrameRef.ext here'
    rw [if_pos new, if_pos new']
    exact alike.mono included

/-- A new frame in front of environments that correspond makes environments that correspond. -/
theorem extend (mirrors : Mirrors ρ m n) (envs : ρ.envs env.index env'.index) {fr fr' : Frame}
    (alike : fr.Alike ρ fr') :
    Mirrors (ρ.prolonged m n 0 1 1) (m.mapStore fun s => (s.extend env fr).2)
      (n.mapStore fun s => (s.extend env' fr').2) := by
  have included := included_prolonged ρ m n 0 1 1
  refine ⟨?_, ?_, ?_, .inl mirrors.transient, mirrors.native, ?_, ?_, mirrors.notes,
    mirrors.records⟩
  · simpa only [Renaming.prolonged, prolonged_zero, Machine.mapStore] using mirrors.stamps
  · simp only [Machine.mapStore, Store.chains_size_extend]
    exact mirrors.envs.prolonged 1
  · simp only [Machine.mapStore, Store.frames_size_extend]
    exact mirrors.frames.prolonged 1
  · intro other other' related
    simp only [Machine.mapStore, Store.chain_extend]
    rcases prolonged_one.mp related with old | ⟨here, here'⟩
    · obtain ⟨there, there'⟩ := mirrors.hasEnv old
      rw [if_neg (Store.ne_nextEnv there), if_neg (Store.ne_nextEnv there')]
      exact (mirrors.chain old).imp fun _ _ => included.frames
    · have new : other = m.store.nextEnv := EnvRef.ext here
      have new' : other' = n.store.nextEnv := EnvRef.ext here'
      rw [if_pos new, if_pos new']
      exact .cons (prolonged_one.mpr (.inr ⟨rfl, rfl⟩))
        ((mirrors.chain envs).imp fun _ _ => included.frames)
  · intro g g' related
    simp only [Machine.mapStore, Store.frame_extend]
    exact mirrors.added_frame included alike related

theorem push (mirrors : Mirrors ρ m n) (envs : ρ.envs env.index env'.index) {fr fr' : Frame}
    (alike : fr.Alike ρ fr') :
    Mirrors (ρ.prolonged m n 0 0 1) (m.mapStore (·.push env fr))
      (n.mapStore (·.push env' fr')) := by
  have included := included_prolonged ρ m n 0 0 1
  refine ⟨?_, ?_, ?_, .inl mirrors.transient, mirrors.native, ?_, ?_, mirrors.notes,
    mirrors.records⟩
  · simpa only [Renaming.prolonged, prolonged_zero, Machine.mapStore] using mirrors.stamps
  · simpa only [Renaming.prolonged, prolonged_zero, Machine.mapStore, Store.chains_size_push]
      using mirrors.envs
  · simp only [Machine.mapStore, Store.frames_size_push]
    exact mirrors.frames.prolonged 1
  · intro other other' related
    simp only [Renaming.prolonged, prolonged_zero] at related
    obtain ⟨there, there'⟩ := mirrors.hasEnv envs
    have chains := (mirrors.chain related).imp fun _ _ => included.frames
    by_cases here : other = env
    · have here' := (mirrors.env_eq_iff envs related).mp here
      subst here here'
      simp only [Machine.mapStore, Store.chain_push_self there, Store.chain_push_self there']
      exact .cons (prolonged_one.mpr (.inr ⟨rfl, rfl⟩)) chains
    · have here' := (mirrors.env_eq_iff envs related).not.mp here
      simp only [Machine.mapStore, Store.chain_push_other here, Store.chain_push_other here']
      exact chains
  · intro g g' related
    simp only [Machine.mapStore, Store.frame_push]
    exact mirrors.added_frame included alike related

theorem modifyFrame (mirrors : Mirrors ρ m n) (frames : ρ.frames f.index f'.index)
    {change change' : Frame → Frame}
    (changes : (change (m.store.frame f)).Alike ρ (change' (n.store.frame f'))) :
    Mirrors ρ (m.mapStore (·.modifyFrame f change)) (n.mapStore (·.modifyFrame f' change')) := by
  refine ⟨mirrors.stamps, mirrors.envs, ?_, mirrors.transient, mirrors.native, mirrors.chain, ?_,
    mirrors.notes, mirrors.records⟩
  · simpa [Machine.mapStore, Store.frames_size_modifyFrame] using mirrors.frames
  · intro g g' related
    obtain ⟨there, there'⟩ := mirrors.hasFrame frames
    by_cases here : g = f
    · have here' := (mirrors.frame_eq_iff frames related).mp here
      subst here here'
      simp only [Machine.mapStore, Store.frame_modifyFrame_self there,
        Store.frame_modifyFrame_self there']
      exact changes
    · have here' := (mirrors.frame_eq_iff frames related).not.mp here
      simp only [Machine.mapStore, Store.frame_modifyFrame_other here,
        Store.frame_modifyFrame_other here']
      exact mirrors.frame related

/-- The right one of two states that mirror each other may go on, as long as what corresponds to
    something stays as it is there. -/
theorem goOn {n' : Machine} (mirrors : Mirrors ρ m n) (stamps : n.stamps ≤ n'.stamps)
    (moreEnvs : n.store.chains.size ≤ n'.store.chains.size)
    (moreFrames : n.store.frames.size ≤ n'.store.frames.size)
    (chain : ∀ {env env' : EnvRef}, ρ.envs env.index env'.index →
      n'.store.chain env' = n.store.chain env')
    (frame : ∀ {f g : FrameRef}, ρ.frames f.index g.index → n'.store.frame g = n.store.frame g)
    (notes : n'.notes = n.notes) (records : n'.records = n.records) : Mirrors ρ m n' := by
  refine ⟨mirrors.stamps.widen (Nat.le_refl _) stamps, mirrors.envs.widen (Nat.le_refl _) moreEnvs,
    mirrors.frames.widen (Nat.le_refl _) moreFrames, mirrors.transient, mirrors.native, ?_, ?_,
    mirrors.notes.trans notes.symm, mirrors.records.trans records.symm⟩
  · intro env env' related
    rw [chain related]
    exact mirrors.chain related
  · intro f g related
    rw [frame related]
    exact mirrors.frame related

theorem addRecord (mirrors : Mirrors ρ m n) (r : Record) :
    Mirrors ρ (m.addRecord r) (n.addRecord r) :=
  ⟨mirrors.stamps, mirrors.envs, mirrors.frames, mirrors.transient, mirrors.native, mirrors.chain,
    mirrors.frame, mirrors.notes, congrArg (·.push r) mirrors.records⟩

end Mirrors

/-! ## Outcomes -/

/-- Evaluation stops for the same reason. -/
inductive Halt.Same : Halt → Halt → Prop where
  | fault {c d : Fault} (same : c.Same d) : Same (.fault c) (.fault d)
  | exhausted : Same .exhausted .exhausted

/-- Two computations end alike: both with values that are related, or both for the same reason, and
    in states that mirror each other under a renaming that has evolved from the given one. -/
inductive EndsAlike {ε α β : Type} (E : ε → ε → Prop) (R : Renaming → α → β → Prop) (ρ : Renaming)
    (n : Machine) : EStateM.Result ε Machine α → EStateM.Result ε Machine β → Prop where
  | ok {σ : Renaming} {a : α} {b : β} {m' n' : Machine} (evolves : Evolves ρ n σ n')
      (mirrors : Mirrors σ m' n') (related : R σ a b) : EndsAlike E R ρ n (.ok a m') (.ok b n')
  | error {σ : Renaming} {c d : ε} {m' n' : Machine} (evolves : Evolves ρ n σ n')
      (mirrors : Mirrors σ m' n') (same : E c d) : EndsAlike E R ρ n (.error c m') (.error d n')

namespace EndsAlike

variable {ε α β α' β' : Type} {E : ε → ε → Prop} {R : Renaming → α → β → Prop} {ρ σ : Renaming}
  {m n n' : Machine}

/-- What has evolved further has evolved from where it started. -/
theorem later {r : EStateM.Result ε Machine α} {r' : EStateM.Result ε Machine β}
    (evolves : Evolves ρ n σ n') (alike : EndsAlike E R σ n' r r') : EndsAlike E R ρ n r r' := by
  cases alike with
  | ok evolves' mirrors related => exact .ok (evolves.trans evolves') mirrors related
  | error evolves' mirrors same => exact .error (evolves.trans evolves') mirrors same

/-- Sequences of computations end alike if their parts do. -/
theorem bind {x : EStateM ε Machine α} {y : EStateM ε Machine β} {next : α → EStateM ε Machine α'}
    {next' : β → EStateM ε Machine β'} {S : Renaming → α' → β' → Prop}
    (first : EndsAlike E R ρ n (x m) (y n))
    (second : ∀ σ a b m' n', Evolves ρ n σ n' → Mirrors σ m' n' → R σ a b →
      EndsAlike E S σ n' (next a m') (next' b n')) :
    EndsAlike E S ρ n ((x >>= next) m) ((y >>= next') n) := by
  simp only [Bind.bind, EStateM.bind]
  generalize x m = r at first
  generalize y n = r' at first
  cases first with
  | ok evolves mirrors related => exact later evolves (second _ _ _ _ _ evolves mirrors related)
  | error evolves mirrors same => exact .error evolves mirrors same

theorem pure {a : α} {b : β} (mirrors : Mirrors ρ m n) (related : R ρ a b) :
    EndsAlike E R ρ n ((Pure.pure a : EStateM ε Machine α) m)
      ((Pure.pure b : EStateM ε Machine β) n) :=
  ok (.refl ρ n) mirrors related

theorem get {next : Machine → EvalM α} {next' : Machine → EvalM β}
    (second : EndsAlike Halt.Same R ρ n (next m m) (next' n n)) :
    EndsAlike Halt.Same R ρ n ((MonadState.get >>= next) m) ((MonadState.get >>= next') n) :=
  second

theorem fail {c d : Fault} (mirrors : Mirrors ρ m n) (same : c.Same d) :
    EndsAlike Halt.Same R ρ n (Eval.fail c m) (Eval.fail d n) :=
  error (.refl ρ n) mirrors (.fault same)

theorem ofExcept {r : Except Fault α} {r' : Except Fault β} (mirrors : Mirrors ρ m n)
    (tallies : Tallies (R ρ) r r') :
    EndsAlike Halt.Same R ρ n (Eval.ofExcept r m) (Eval.ofExcept r' n) := by
  cases tallies with
  | ok related => exact pure mirrors related
  | error same => exact fail mirrors same

/-- Checks that tally, and then computations that end alike. -/
theorem check {Q : α' → β' → Prop} {r : Except Fault α'} {r' : Except Fault β'}
    {next : α' → EvalM α} {next' : β' → EvalM β} (mirrors : Mirrors ρ m n)
    (tallies : Tallies Q r r')
    (second : ∀ a b, Q a b → EndsAlike Halt.Same R ρ n (next a m) (next' b n)) :
    EndsAlike Halt.Same R ρ n ((Eval.ofExcept r >>= next) m) ((Eval.ofExcept r' >>= next') n) := by
  cases tallies with
  | ok related => exact second _ _ related
  | error same => exact fail mirrors same

end EndsAlike

/-! ## Elementary steps of evaluation -/

section
variable {ρ : Renaming} {m n : Machine} {env env' : EnvRef} {args args' : List Value}

theorem freshStamp_alike (mirrors : Mirrors ρ m n) :
    EndsAlike Halt.Same (fun σ s t => σ.stamps s.serial t.serial) ρ n (Eval.freshStamp m)
      (Eval.freshStamp n) :=
  .ok (evolves_prolonged ρ m (Nat.le_succ _) (Nat.le_refl _) (Nat.le_refl _)) (mirrors.takeStamps 1)
    (prolonged_one.mpr (.inr ⟨rfl, rfl⟩))

theorem newList_alike (mirrors : Mirrors ρ m n) (alike : List.Forall₂ (Value.Alike ρ) args args') :
    EndsAlike Halt.Same Value.Alike ρ n (Eval.newList args m) (Eval.newList args' n) := by
  refine (freshStamp_alike mirrors).bind fun σ s t m' n' evolves mirrors stamps => ?_
  have each := alike.imp fun _ _ => Value.Alike.mono evolves.included
  exact .pure mirrors (.list stamps (Value.alikeItems_iff.mpr each))

theorem extend_alike (mirrors : Mirrors ρ m n) (envs : ρ.envs env.index env'.index)
    (params : List Symbol) (alike : List.Forall₂ (Value.Alike ρ) args args') :
    EndsAlike Halt.Same (fun σ inner inner' => σ.envs inner.index inner'.index) ρ n
      (Eval.extend env params args m) (Eval.extend env' params args' n) := by
  refine .check mirrors (bind_alike params alike) fun fr fr' alike => ?_
  refine .ok (evolves_prolonged ρ m (Nat.le_refl _) ?_ ?_) (mirrors.extend envs alike)
    (prolonged_one.mpr (.inr ⟨rfl, rfl⟩))
  · exact le_of_le_of_eq (Nat.le_succ _) (Store.chains_size_extend n.store env' fr').symm
  · exact le_of_le_of_eq (Nat.le_succ _) (Store.frames_size_extend n.store env' fr').symm

theorem rebindHead_alike (mirrors : Mirrors ρ m n) (envs : ρ.envs env.index env'.index)
    (params : List Symbol) (alike : List.Forall₂ (Value.Alike ρ) args args') :
    EndsAlike Halt.Same (fun _ _ _ => True) ρ n (Eval.rebindHead env params args m)
      (Eval.rebindHead env' params args' n) := by
  rw [Eval.rebindHead_eq, Eval.rebindHead_eq]
  refine .check mirrors (mirrors.headFor envs params alike) fun f g frames => ?_
  have changed := insertAll_alike (mirrors.frame frames) (zip_alike params alike)
  exact .ok (.of_sizes ρ rfl rfl (Store.frames_size_modifyFrame ..))
    (mirrors.modifyFrame frames changed) trivial

theorem report_alike (mirrors : Mirrors ρ m n) (r : Record) :
    EndsAlike Halt.Same (fun _ _ _ => True) ρ n (Eval.report r m) (Eval.report r n) :=
  .ok (.of_sizes ρ rfl rfl rfl) (mirrors.addRecord r) trivial

theorem assign_alike {f g : FrameRef} (mirrors : Mirrors ρ m n)
    (frames : ρ.frames f.index g.index) (x : Symbol) {v w : Value} (alike : v.Alike ρ w) :
    EndsAlike Halt.Same (fun _ _ _ => True) ρ n
      ((modify (·.mapStore (·.assign f x v)) : EvalM Unit) m)
      ((modify (·.mapStore (·.assign g x w)) : EvalM Unit) n) :=
  .ok (.of_sizes ρ rfl rfl (Store.frames_size_modifyFrame ..))
    (mirrors.modifyFrame frames (insert_alike (mirrors.frame frames) x alike)) trivial

theorem push_alike (mirrors : Mirrors ρ m n) (envs : ρ.envs env.index env'.index)
    {fr fr' : Frame} (alike : fr.Alike ρ fr') :
    EndsAlike Halt.Same (fun _ _ _ => True) ρ n
      ((modify (·.mapStore (·.push env fr)) : EvalM Unit) m)
      ((modify (·.mapStore (·.push env' fr')) : EvalM Unit) n) := by
  refine .ok (evolves_prolonged ρ m (Nat.le_refl _) ?_ ?_) (mirrors.push envs alike) trivial
  · exact Nat.le_of_eq (Store.chains_size_push n.store env' fr').symm
  · exact le_of_le_of_eq (Nat.le_succ _) (Store.frames_size_push n.store env' fr').symm

end

/-! ## Primitives -/

section
variable {ρ : Renaming} {m n : Machine} {a b a' b' : Value}

theorem Unary.nonEmpty_alike (f : Unary) (alike : a.Alike ρ b) :
    Tallies (fun p q => p.1.Alike ρ q.1 ∧ List.Forall₂ (Value.Alike ρ) p.2 q.2) (nonEmpty f a)
      (nonEmpty f b) := by
  have refused (looks : a.LooksLike b) : (Fault.expectsList f a).Same (.expectsList f b) :=
    .of_culprits rfl rfl looks rfl rfl rfl fun _ => rfl
  have refused := refused alike.looks
  cases alike with
  | list _ each =>
    cases each with
    | nil => exact .error (.refl _)
    | cons first rest => exact .ok ⟨first, Value.alikeItems_iff.mp rest⟩
  | _ => exact .error refused

theorem Unary.call_alike (f : Unary) (mirrors : Mirrors ρ m n) (alike : a.Alike ρ b) :
    EndsAlike Halt.Same Value.Alike ρ n (f.call a m) (f.call b n) := by
  cases f with
  | isNull =>
    simp only [call, Value.isNull_alike alike]
    exact .pure mirrors (.bool _)
  | car => exact .ofExcept mirrors ((nonEmpty_alike .car alike).map fun _ _ => And.left)
  | cdr =>
    refine .check mirrors (nonEmpty_alike .cdr alike) ?_
    rintro ⟨_, rest⟩ ⟨_, rest'⟩ ⟨_, alike⟩
    exact newList_alike mirrors alike

theorem Binary.numbers_alike (f : Binary) (left : a.Alike ρ b) (right : a'.Alike ρ b') :
    Tallies (fun p q => p.1.Alike ρ q.1 ∧ p.2.Alike ρ q.2) (numbers f a a') (numbers f b b') := by
  have refused {v w : Value} (looks : v.LooksLike w) :
      (Fault.expectsNumbers f v).Same (.expectsNumbers f w) :=
    .of_culprits rfl rfl looks rfl rfl rfl fun _ => rfl
  have first := refused left.looks
  have second := refused right.looks
  cases left with
  | number same =>
    cases right with
    | number same' => exact .ok ⟨same, same'⟩
    | _ => exact .error second
  | _ => cases right <;> exact .error first

theorem Binary.compare_alike (f : Binary) {test : Number → Number → Bool}
    (respects : ∀ {x y x' y' : Number}, x.Alike ρ y → x'.Alike ρ y' → test x x' = test y y')
    (left : a.Alike ρ b) (right : a'.Alike ρ b') :
    Tallies (Value.Alike ρ) (compare f test a a') (compare f test b b') := by
  refine (numbers_alike f left right).map ?_
  rintro ⟨x, x'⟩ ⟨y, y'⟩ ⟨same, same'⟩
  simp only [respects same same']
  exact .bool _

theorem Binary.compute_alike (f : Binary) (op : Number.Operation) (mirrors : Mirrors ρ m n)
    (left : a.Alike ρ b) (right : a'.Alike ρ b') :
    EndsAlike Halt.Same Value.Alike ρ n (compute f op a a' m) (compute f op b b' n) := by
  refine .check mirrors (numbers_alike f left right) ?_
  rintro ⟨x, x'⟩ ⟨y, y'⟩ ⟨same, same'⟩
  simp only [op.apply_alike same same']
  cases result : op.apply y y' with
  | number z => exact .pure mirrors (.number (op.alike_of_apply result))
  | undefined =>
    refine (freshStamp_alike mirrors).bind fun σ s t m' n' evolves mirrors stamps => ?_
    exact .pure mirrors (.number (.nan stamps))
  | tooLarge => exact .fail mirrors (.refl _)

theorem Binary.call_alike (room : Nat) (f : Binary) (mirrors : Mirrors ρ m n)
    (left : a.Alike ρ b) (right : a'.Alike ρ b') :
    EndsAlike Halt.Same Value.Alike ρ n (f.call room a a' m) (f.call room b b' n) := by
  cases f with
  | cons =>
    have refused (looks : a'.LooksLike b') : (Fault.dottedPair a').Same (.dottedPair b') :=
      .of_culprits rfl rfl looks rfl rfl rfl fun _ => rfl
    have refused := refused right.looks
    cases right with
    | list _ each => exact newList_alike mirrors (.cons left (Value.alikeItems_iff.mp each))
    | _ => exact .fail mirrors refused
  | add | sub | mul => exact compute_alike _ _ mirrors left right
  | gt => exact .ofExcept mirrors (compare_alike _ (fun l r => Number.lt_alike r l) left right)
  | ge => exact .ofExcept mirrors (compare_alike _ (fun l r => Number.le_alike r l) left right)
  | lt => exact .ofExcept mirrors (compare_alike _ Number.lt_alike left right)
  | le => exact .ofExcept mirrors (compare_alike _ Number.le_alike left right)
  | equal =>
    simp only [call, decideEqual, Value.equal?_alike mirrors.stamps.unique .apart left right room]
    cases Value.equal? .apart room b b' with
    | some answer => exact .pure mirrors (.bool answer)
    | none => exact .fail mirrors (.refl _)

theorem Op.call_alike (room : Nat) {op : Op} (own : op.isHost = false) {args args' : List Value}
    (mirrors : Mirrors ρ m n) (alike : List.Forall₂ (Value.Alike ρ) args args') :
    EndsAlike Halt.Same Value.Alike ρ n (op.call room args m) (op.call room args' n) := by
  have refused : EndsAlike Halt.Same Value.Alike ρ n
      (Eval.fail (.primitiveArity op.tag (op.arity.getD 0) args.length) m)
      (Eval.fail (.primitiveArity op.tag (op.arity.getD 0) args'.length) n) := by
    rw [alike.length_eq]
    exact .fail mirrors (.refl _)
  cases op with
  | unary f =>
    cases alike with
    | nil => exact refused
    | cons first rest =>
      cases rest with
      | nil => exact f.call_alike mirrors first
      | cons _ _ => exact refused
  | binary f =>
    cases alike with
    | nil => exact refused
    | cons first rest =>
      cases rest with
      | nil => exact refused
      | cons second rest =>
        cases rest with
        | nil => exact f.call_alike room mirrors first second
        | cons _ _ => exact refused
  | list => exact newList_alike mirrors alike
  | note tag arity => cases own

end

/-! ## Evaluation -/

/-- Evaluators end alike on alike expressions in environments that correspond. -/
def Simulates (ev : Evaluator) : Prop :=
  ∀ {ρ m n e e' env env'}, Mirrors ρ m n → Value.Alike ρ.code e e' → ρ.envs env.index env'.index →
    EndsAlike Halt.Same Value.Alike ρ n (ev e env m) (ev e' env' n)

section
variable {ρ : Renaming} {m n : Machine} {env env' : EnvRef} {ev : Evaluator} {room : Nat}

theorem mapM_alike (simulates : Simulates ev) {items items' : List Value}
    (mirrors : Mirrors ρ m n) (alike : List.Forall₂ (Value.Alike ρ.code) items items')
    (envs : ρ.envs env.index env'.index) :
    EndsAlike Halt.Same (fun σ => List.Forall₂ (Value.Alike σ)) ρ n (items.mapM (ev · env) m)
      (items'.mapM (ev · env') n) := by
  -- The renaming grows from item to item, so the items that are left are alike under more of it.
  induction items generalizing items' ρ m n with
  | nil =>
    cases alike
    exact .pure mirrors .nil
  | cons e items ih =>
    cases alike with
    | cons first rest =>
      rw [List.mapM_cons, List.mapM_cons]
      refine (simulates mirrors first envs).bind fun σ v w m' n' evolves mirrors value => ?_
      have rest := rest.imp fun _ _ => Value.Alike.mono evolves.included.code
      refine (ih mirrors rest (evolves.included.envs envs)).bind ?_
      intro τ vs ws m'' n'' evolves' mirrors values
      exact .pure mirrors (.cons (value.mono evolves'.included) values)

theorem apply_alike (simulates : Simulates ev) {fn fn' : Value} {args args' : List Value}
    (mirrors : Mirrors ρ m n) (functions : fn.Alike ρ fn')
    (alike : List.Forall₂ (Value.Alike ρ) args args') :
    EndsAlike Halt.Same Value.Alike ρ n (Eval.apply room ev fn args m)
      (Eval.apply room ev fn' args' n) := by
  have refused (looks : fn.LooksLike fn') : (Fault.notCallable fn).Same (.notCallable fn') :=
    .of_culprits rfl rfl looks rfl rfl rfl fun _ => rfl
  have refused := refused functions.looks
  cases functions with
  | @primitive _ _ _ op stamps own =>
    have own : op.isHost = false := by
      rw [← Bool.not_eq_true]
      exact fun host => mirrors.native (own host)
    exact Op.call_alike room own mirrors alike
  | @closure _ _ _ params _ _ _ _ stamps bodies envs =>
    refine (extend_alike mirrors envs params alike).bind ?_
    intro σ inner inner' m' n' evolves mirrors envs
    exact simulates mirrors (bodies.mono evolves.included.code) envs
  | _ => exact .fail mirrors refused

theorem alike_placeholders (params : List Symbol) : List.Forall₂ (Value.Alike ρ)
    (params.map fun _ => .unassigned) (params.map fun _ => .unassigned) := by
  rw [List.forall₂_map_left_iff, List.forall₂_map_right_iff, List.forall₂_same]
  exact fun _ _ => .unassigned

theorem letRec_alike (simulates : Simulates ev) {b b' : Form.Bindings} (parts : b.Alike ρ.code b')
    (mirrors : Mirrors ρ m n) (envs : ρ.envs env.index env'.index) :
    EndsAlike Halt.Same Value.Alike ρ n ((Phrase.letRec b).run room ev env m)
      ((Phrase.letRec b').run room ev env' n) := by
  simp only [Phrase.run, parts.params]
  refine (extend_alike mirrors envs _ (alike_placeholders _)).bind ?_
  intro σ inner inner' m1 n1 evolves mirrors envs
  have inits := parts.inits.imp fun _ _ => Value.Alike.mono evolves.included.code
  refine (mapM_alike simulates mirrors inits envs).bind ?_
  intro σ' values values' m2 n2 evolves' mirrors values
  have envs := evolves'.included.envs envs
  refine (rebindHead_alike mirrors envs _ values).bind ?_
  intro τ _ _ m3 n3 evolves'' mirrors _
  have included := (evolves.included.trans evolves'.included).trans evolves''.included
  refine (report_alike mirrors _).bind ?_
  intro τ' _ _ m4 n4 evolves''' mirrors _
  have included := included.trans evolves'''.included
  refine simulates mirrors (Form.application_alike mirrors.transient_code ?_) ?_
  · exact ⟨parts.params, parts.inits.imp fun _ _ => Value.Alike.mono included.code,
      parts.body.mono included.code⟩
  · exact evolves'''.included.envs (evolves''.included.envs envs)

theorem define_alike (simulates : Simulates ev) {expr expr' : Value} (x : Symbol)
    (exprs : expr.Alike ρ.code expr') (mirrors : Mirrors ρ m n)
    (envs : ρ.envs env.index env'.index) :
    EndsAlike Halt.Same Value.Alike ρ n ((Phrase.define x expr).run room ev env m)
      ((Phrase.define x expr').run room ev env' n) := by
  have found := mirrors.find? envs x
  refine .get ?_
  generalize m.store.find? env x = f? at found
  generalize n.store.find? env' x = g? at found
  refine (simulates mirrors exprs envs).bind fun σ v w m1 n1 evolves mirrors value => ?_
  cases found with
  | some frames =>
    refine (report_alike mirrors _).bind fun σ' _ _ m2 n2 evolves' mirrors _ => ?_
    have frames := evolves'.included.frames (evolves.included.frames frames)
    refine (assign_alike mirrors frames x (value.mono evolves'.included)).bind ?_
    exact fun _ _ _ _ _ _ mirrors _ => .pure mirrors .unit
  | none =>
    refine (report_alike mirrors _).bind fun σ' _ _ m2 n2 evolves' mirrors _ => ?_
    have envs := evolves'.included.envs (evolves.included.envs envs)
    have entry : EntryAlike σ' (x, v) (x, w) := ⟨rfl, value.mono evolves'.included⟩
    refine (push_alike mirrors envs (ofPairs_alike (.cons entry .nil))).bind ?_
    exact fun _ _ _ _ _ _ mirrors _ => .pure mirrors .unit

/-- What a phrase does is the same up to renaming. -/
theorem run_alike (simulates : Simulates ev) {p p' : Phrase} (alike : p.Alike ρ.code p')
    (mirrors : Mirrors ρ m n) (envs : ρ.envs env.index env'.index) :
    EndsAlike Halt.Same Value.Alike ρ n (p.run room ev env m) (p'.run room ev env' n) := by
  cases alike with
  | number same => exact .pure mirrors (.number same.ofCode)
  | name x => exact .ofExcept mirrors (mirrors.lookup envs x)
  | application heads each =>
    refine (simulates mirrors heads envs).bind fun σ fn fn' m' n' evolves mirrors functions => ?_
    have each := each.imp fun _ _ => Value.Alike.mono evolves.included.code
    refine (mapM_alike simulates mirrors each (evolves.included.envs envs)).bind ?_
    intro τ values values' m'' n'' evolves' mirrors values
    exact apply_alike simulates mirrors (functions.mono evolves'.included) values
  | lambda params bodies =>
    refine (freshStamp_alike mirrors).bind fun σ s t m' n' evolves mirrors stamps => ?_
    have included := evolves.included
    exact .pure mirrors (.closure stamps (bodies.mono included.code) (included.envs envs))
  | letPlain parts =>
    exact simulates mirrors (Form.application_alike mirrors.transient_code parts) envs
  | letRec parts => exact letRec_alike simulates parts mirrors envs
  | branch conditions consequents alternatives =>
    refine (simulates mirrors conditions envs).bind fun σ v w m' n' evolves mirrors value => ?_
    have included := evolves.included
    rw [Value.isTrue_alike value]
    split
    · exact simulates mirrors (consequents.mono included.code) (included.envs envs)
    · exact simulates mirrors (alternatives.mono included.code) (included.envs envs)
  | define x exprs => exact define_alike simulates x exprs mirrors envs

end

/-- Evaluation of alike expressions, in states that mirror each other, ends alike. -/
theorem eval_alike (room depth : Nat) : Simulates (eval room depth) := by
  induction depth with
  | zero =>
    intro ρ m n e e' env env' mirrors alike envs
    exact .error (.refl ρ n) mirrors .exhausted
  | succ depth ih =>
    intro ρ m n e e' env env' mirrors alike envs
    rw [eval_succ_eq_run, eval_succ_eq_run]
    exact .check mirrors (Phrase.of_alike mirrors.transient_code alike) fun p p' alike =>
      run_alike ih alike mirrors envs

/-! ## Evaluation for a caller -/

theorem showWithin_looks {v w : Value} (looks : v.LooksLike w) (levels : Nat) :
    showWithin levels v = showWithin levels w := by
  simp only [showWithin, Value.display, looks.obstacle?, looks.render]

section
variable {ρ : Renaming} {m n : Machine} {e e' : Value} {env env' : EnvRef}

theorem endExhausted_alike (levels limit : Nat) (mirrors : Mirrors ρ m n)
    (alike : e.Alike ρ.code e') :
    EndsAlike Fault.Same Value.Alike ρ n (endExhausted levels limit e m)
      (endExhausted levels limit e' n) := by
  have exceeded : (Fault.depthExceeded e).Same (.depthExceeded e') :=
    .of_culprits rfl rfl alike.looks rfl rfl rfl fun _ => rfl
  simp only [endExhausted, showWithin_looks alike.looks]
  cases showWithin levels e' with
  | error cause => exact .error (.refl ρ n) mirrors (.refl cause)
  | ok shown => exact .error (.of_sizes ρ rfl rfl rfl) (mirrors.addRecord _) exceeded

theorem endFaulty_alike (level : Level) (levels : Nat) {c d : Fault} (same : c.Same d)
    (mirrors : Mirrors ρ m n) (alike : e.Alike ρ.code e') :
    EndsAlike Fault.Same Value.Alike ρ n (endFaulty level levels e c m)
      (endFaulty level levels e' d n) := by
  simp only [endFaulty, showWithin_looks alike.looks, same.isEvaluationError, same.message]
  split
  · cases showWithin levels e' with
    | error cause => exact .error (.refl ρ n) mirrors (.refl cause)
    | ok shown => exact .error (.of_sizes ρ rfl rfl rfl) (mirrors.addRecord _) same
  · exact .error (.refl ρ n) mirrors same

/-- `evaluate` ends alike on alike expressions in environments that correspond. -/
theorem evaluate_alike (p : Policy) (mirrors : Mirrors ρ m n) (alike : e.Alike ρ.code e')
    (envs : ρ.envs env.index env'.index) :
    EndsAlike Fault.Same Value.Alike ρ n (evaluate p e env m) (evaluate p e' env' n) := by
  unfold evaluate
  cases p.recursionLimit with
  | error cause => exact .error (.refl ρ n) mirrors (.refl cause)
  | ok limit =>
    have ends := eval_alike (p.stack.levels limit) (p.stack.calls limit) mirrors alike envs
    dsimp only
    generalize eval (p.stack.levels limit) (p.stack.calls limit) e env m = r at ends
    generalize eval (p.stack.levels limit) (p.stack.calls limit) e' env' n = r' at ends
    cases ends with
    | ok evolves mirrors value => exact .ok evolves mirrors value
    | error evolves mirrors same =>
      have alike := alike.mono evolves.included.code
      cases same with
      | exhausted => exact .later evolves (endExhausted_alike _ limit mirrors alike)
      | @fault c d same =>
        have same := same.settle (p.stack.levels limit)
        dsimp only
        generalize c.settle (p.stack.levels limit) = c' at same
        generalize d.settle (p.stack.levels limit) = d' at same
        by_cases deep : c' = .tooDeep
        · have deep' := same.tooDeep_iff.mp deep
          subst deep deep'
          exact .later evolves (endExhausted_alike _ limit mirrors alike)
        · have deep' := same.tooDeep_iff.not.mp deep
          have ends := endFaulty_alike p.level (p.stack.levels limit) same mirrors alike
          split
          · exact absurd rfl deep
          · exact .later evolves ends

end

end FrameLisp
