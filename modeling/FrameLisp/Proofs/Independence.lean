import FrameLisp.Proofs.Separation
import FrameLisp.Session.Basic

/-!
Environments that know nothing of each other. In a session some environments are made by the caller
and used in turn. Beside it stands the session in which the environment of one name is used and no
other (`Session.Beside`): their own environments correspond, and all that the others can reach lies
in a region apart. A use of the environment itself is told alike in both (`Beside.own_use`), and a
use of another one changes nothing about it (`Beside.foreign_use`), so a caller is told the same
whichever uses of the others are left out.
-/
namespace FrameLisp

/-! ## Literals -/

namespace Literal

/-- Makes values with stamps from a machine's supply. -/
def drawing {α : Type} (make : MakeM α) : EStateM Failure Machine α := fun m =>
  match make m.stamps with
  | .ok a stamps => .ok a { m with stamps }
  | .error why stamps => .error why { m with stamps }

theorem drawing_bind {α β : Type} (make : MakeM α) (next : α → MakeM β) :
    drawing (make >>= next) = drawing make >>= fun a => drawing (next a) := by
  funext m
  simp only [drawing, bind, EStateM.bind]
  cases make m.stamps <;> rfl

/-- Literals make values that are related, or fail for the same reason. -/
abbrev MakesAlike {α : Type} (R : Renaming → α → α → Prop) (ρ : Renaming) (m n : Machine)
    (make make' : MakeM α) : Prop :=
  EndsAlike Eq R ρ n (drawing make m) (drawing make' n)

section
variable {α β : Type} {R : Renaming → α → α → Prop} {S : Renaming → β → β → Prop} {ρ : Renaming}
  {m n : Machine} {kept kept' : Kept}

theorem makesAlike_pure {a b : α} (mirrors : Mirrors ρ m n) (related : R ρ a b) :
    MakesAlike R ρ m n (pure a) (pure b) :=
  .ok (.refl ρ n) mirrors related

theorem MakesAlike.bind {make make' : MakeM α} {next next' : α → MakeM β}
    (first : MakesAlike R ρ m n make make')
    (second : ∀ σ a b m' n', Evolves ρ n σ n' → Mirrors σ m' n' → R σ a b →
      MakesAlike S σ m' n' (next a) (next' b)) :
    MakesAlike S ρ m n (make >>= next) (make' >>= next') := by
  unfold MakesAlike
  rw [drawing_bind, drawing_bind]
  exact EndsAlike.bind first second

theorem freshStamp_alike (mirrors : Mirrors ρ m n) :
    MakesAlike (fun σ s t => σ.stamps s.serial t.serial) ρ m n freshStamp freshStamp :=
  .ok (evolves_prolonged ρ m (Nat.le_succ _) (Nat.le_refl _) (Nat.le_refl _)) (mirrors.takeStamps 1)
    (prolonged_one.mpr (.inr ⟨rfl, rfl⟩))

mutual

/-- The values that a literal writes are alike. -/
theorem make_alike {ρ : Renaming} {m n : Machine} {kept kept' : Kept} (mirrors : Mirrors ρ m n)
    (known : List.Forall₂ (EntryAlike ρ) kept kept') :
    (l : Literal) → MakesAlike Value.Alike ρ m n (l.make kept) (l.make kept')
  | .int n => makesAlike_pure mirrors (.number (.int n))
  | .numeral negative digits => by
    simp only [make, ofNumeral]
    split
    · exact makesAlike_pure mirrors (.number (.int _))
    · exact .error (.refl ρ n) mirrors rfl
  | .float x => makesAlike_pure mirrors (.number (.float x))
  | .nan => (freshStamp_alike mirrors).bind fun _ _ _ _ _ _ mirrors stamps =>
      makesAlike_pure mirrors (.number (.nan stamps))
  | .bool b => makesAlike_pure mirrors (.bool b)
  | .symbol x => makesAlike_pure mirrors (.symbol x)
  | .str text => makesAlike_pure mirrors (.str text)
  | .nothing => makesAlike_pure mirrors .nothing
  | .unit => makesAlike_pure mirrors .unit
  | .unassigned => makesAlike_pure mirrors .unassigned
  | .list items => by
    refine (freshStamp_alike mirrors).bind fun σ s t m' n' evolves mirrors stamps => ?_
    have known := known.imp fun _ _ => EntryAlike.mono evolves.included
    refine (makeItems_alike mirrors known items).bind fun τ vs ws _ _ evolves' mirrors each => ?_
    have stamps := evolves'.included.stamps stamps
    exact makesAlike_pure mirrors (.list stamps (Value.alikeItems_iff.mpr each))
  | .tuple items => by
    refine (freshStamp_alike mirrors).bind fun σ s t m' n' evolves mirrors stamps => ?_
    have known := known.imp fun _ _ => EntryAlike.mono evolves.included
    refine (makeItems_alike mirrors known items).bind fun τ vs ws _ _ evolves' mirrors each => ?_
    have stamps := evolves'.included.stamps stamps
    exact makesAlike_pure mirrors (.tuple stamps (Value.alikeItems_iff.mpr each))
  | .dict entries => by
    refine (freshStamp_alike mirrors).bind fun σ s t m' n' evolves mirrors stamps => ?_
    have known := known.imp fun _ _ => EntryAlike.mono evolves.included
    refine (makeEntries_alike mirrors known entries).bind ?_
    intro τ vs ws _ _ evolves' mirrors each
    have stamps := evolves'.included.stamps stamps
    exact makesAlike_pure mirrors
      (.dict stamps (Value.alikeEntries_text (insertAll_alike .nil each)))
  | .kept name => by
    have found := get?_alike known name
    simp only [make]
    generalize Assoc.get? name kept = v? at found
    generalize Assoc.get? name kept' = w? at found
    cases found with
    | none => exact .error (.refl ρ n) mirrors rfl
    | some alike => exact makesAlike_pure mirrors alike
  | .nest count template core => by
    simp only [make]
    refine (make_alike mirrors known core).bind fun σ v w m' n' evolves mirrors start => ?_
    have known := known.imp fun _ _ => EntryAlike.mono evolves.included
    generalize List.range count = rounds
    induction rounds generalizing σ v w m' n' with
    | nil => exact makesAlike_pure mirrors start
    | cons round rounds ih =>
      rw [List.foldlM_cons, List.foldlM_cons]
      have wrapped : EntryAlike σ (inner, v) (inner, w) := ⟨rfl, start⟩
      refine (make_alike mirrors (.cons wrapped known) template).bind ?_
      intro τ v w m' n' evolves' mirrors start
      exact ih τ v w m' n' (evolves.trans evolves') mirrors start
        (known.imp fun _ _ => EntryAlike.mono evolves'.included)

theorem makeItems_alike {ρ : Renaming} {m n : Machine} {kept kept' : Kept} (mirrors : Mirrors ρ m n)
    (known : List.Forall₂ (EntryAlike ρ) kept kept') :
    (ls : List Literal) → MakesAlike (fun σ => List.Forall₂ (Value.Alike σ)) ρ m n
      (makeItems kept ls) (makeItems kept' ls)
  | [] => makesAlike_pure mirrors .nil
  | l :: ls => by
    refine (make_alike mirrors known l).bind fun σ v w m' n' evolves mirrors first => ?_
    have known := known.imp fun _ _ => EntryAlike.mono evolves.included
    refine (makeItems_alike mirrors known ls).bind fun τ vs ws _ _ evolves' mirrors rest => ?_
    exact makesAlike_pure mirrors (.cons (first.mono evolves'.included) rest)

theorem makeEntries_alike {ρ : Renaming} {m n : Machine} {kept kept' : Kept}
    (mirrors : Mirrors ρ m n) (known : List.Forall₂ (EntryAlike ρ) kept kept') :
    (ls : List (String × Literal)) → MakesAlike (fun σ => List.Forall₂ (EntryAlike σ)) ρ m n
      (makeEntries kept ls) (makeEntries kept' ls)
  | [] => makesAlike_pure mirrors .nil
  | (key, l) :: ls => by
    refine (make_alike mirrors known l).bind fun σ v w m' n' evolves mirrors first => ?_
    have known := known.imp fun _ _ => EntryAlike.mono evolves.included
    refine (makeEntries_alike mirrors known ls).bind fun τ vs ws _ _ evolves' mirrors rest => ?_
    exact makesAlike_pure mirrors (.cons ⟨rfl, first.mono evolves'.included⟩ rest)

end

end

end Literal

/-! ## Global environments -/

section
variable {ρ σ : Renaming} {m n : Machine}

theorem primitives_alike {ops : List Op} (own : ∀ op ∈ ops, op.isHost = false) (a b : Nat)
    (stamps : ∀ i < ops.length, ρ.stamps (a + i) (b + i)) :
    List.Forall₂ (EntryAlike ρ) (Builtin.primitives a ops) (Builtin.primitives b ops) := by
  induction ops generalizing a b with
  | nil => exact .nil
  | cons op ops ih =>
    have first : (Value.primitive ⟨a⟩ op).Alike ρ (.primitive ⟨b⟩ op) :=
      .primitive (stamps 0 (by simp)) (by simp [own op List.mem_cons_self])
    refine .cons ⟨rfl, first⟩ (ih (fun op member => own op (List.mem_cons_of_mem _ member)) _ _ ?_)
    intro i small
    have later := stamps (i + 1) (by simpa using small)
    rwa [Nat.add_right_comm a, Nat.add_right_comm b]

/-- The frames of global environments made with corresponding stamps are alike. -/
theorem frames_alike (a b : Nat)
    (stamps : ∀ i < Builtin.stampCount, ρ.stamps (a + i) (b + i)) (i : Nat) :
    ((Builtin.frames a)[i]?.getD .empty).Alike ρ ((Builtin.frames b)[i]?.getD .empty) := by
  have ops : Builtin.listOps.length = 5 ∧ Builtin.arithmeticOps.length = 8 ∧
    Builtin.stampCount = 14 := ⟨rfl, rfl, rfl⟩
  match i with
  | 0 =>
    refine .cons ⟨rfl, .list (stamps 0 (by omega)) .nil⟩ ?_
    refine primitives_alike (by decide) _ _ fun i small => ?_
    rw [Nat.add_assoc, Nat.add_assoc]
    exact stamps (1 + i) (by omega)
  | 1 =>
    refine primitives_alike (by decide) _ _ fun i small => ?_
    rw [Nat.add_assoc, Nat.add_assoc, Nat.add_assoc, Nat.add_assoc]
    exact stamps _ (by omega)
  | 2 => exact .cons ⟨rfl, .bool true⟩ (.cons ⟨rfl, .bool false⟩ .nil)
  | _ + 3 => exact .nil

theorem forall₂_range' {R : Nat → Nat → Prop} (a b count : Nat)
    (each : ∀ i < count, R (a + i) (b + i)) :
    List.Forall₂ R (List.range' a count) (List.range' b count) := by
  induction count generalizing a b with
  | zero => exact .nil
  | succ count ih =>
    rw [List.range'_succ, List.range'_succ]
    refine .cons (each 0 (by omega)) (ih _ _ fun i small => ?_)
    have later := each (i + 1) (by omega)
    rwa [Nat.add_right_comm a, Nat.add_right_comm b]

/-- Global environments that are made next correspond. -/
theorem Mirrors.newGlobal (mirrors : Mirrors ρ m n) :
    Mirrors (ρ.prolonged m n Builtin.stampCount 1 3) m.newGlobal.2 n.newGlobal.2 := by
  have included := included_prolonged ρ m n Builtin.stampCount 1 3
  have stamps (i : Nat) (small : i < Builtin.stampCount) :
      (ρ.prolonged m n Builtin.stampCount 1 3).stamps (m.stamps + i) (n.stamps + i) :=
    .inr ⟨i, small, rfl, rfl⟩
  refine ⟨mirrors.stamps.prolonged _, ?_, ?_, .inl mirrors.transient, mirrors.native, ?_, ?_,
    mirrors.notes, mirrors.records⟩
  · simp only [newGlobal_store, Store.chains_size_newEnvOf]
    exact mirrors.envs.prolonged 1
  · simp only [newGlobal_store, Store.frames_size_newEnvOf]
    exact mirrors.frames.prolonged 3
  · intro env env' related
    rw [newGlobal_store, newGlobal_store]
    rcases prolonged_one.mp related with old | ⟨here, here'⟩
    · obtain ⟨there, there'⟩ := mirrors.hasEnv old
      rw [Store.chain_newEnvOf_old there, Store.chain_newEnvOf_old there']
      exact (mirrors.chain old).imp fun _ _ => included.frames
    · have new : env = m.store.nextEnv := EnvRef.ext here
      have new' : env' = n.store.nextEnv := EnvRef.ext here'
      rw [new, new', Store.chain_newEnvOf_new, Store.chain_newEnvOf_new,
        List.forall₂_map_left_iff, List.forall₂_map_right_iff]
      exact forall₂_range' _ _ _ fun i small => .inr ⟨i, small, rfl, rfl⟩
  · intro f g related
    rw [newGlobal_store, newGlobal_store]
    rcases related with old | ⟨i, small, here, here'⟩
    · obtain ⟨there, there'⟩ := mirrors.hasFrame old
      rw [Store.frame_newEnvOf_old there, Store.frame_newEnvOf_old there']
      exact (mirrors.frame old).mono included
    · have new : f = ⟨m.store.frames.size + i⟩ := FrameRef.ext here
      have new' : g = ⟨n.store.frames.size + i⟩ := FrameRef.ext here'
      rw [new, new', Store.frame_newEnvOf_at, Store.frame_newEnvOf_at]
      exact frames_alike _ _ stamps i

end

/-! ## States in which nothing corresponds -/

/-- The renaming of nothing but the stamp that is never compared. -/
def Renaming.blank : Renaming :=
  ⟨fun a b => a = Stamp.transient.serial ∧ b = Stamp.transient.serial, fun _ _ => False,
    fun _ _ => False, False⟩

theorem mirrors_blank {m n : Machine} (left : 0 < m.stamps) (right : 0 < n.stamps)
    (notes : m.notes = n.notes) (records : m.records = n.records) : Mirrors .blank m n := by
  have none (a b : Nat) : Fits (fun _ _ => False) a b :=
    ⟨False.elim, fun _ _ _ => False.elim, fun _ _ _ => False.elim⟩
  refine ⟨⟨?_, ?_, ?_⟩, none _ _, none _ _, ⟨rfl, rfl⟩, id, False.elim, False.elim, notes, records⟩
  · rintro a b ⟨rfl, rfl⟩
    exact ⟨left, right⟩
  · rintro a b c ⟨rfl, rfl⟩ ⟨rfl, _⟩
    rfl
  · rintro a b c ⟨rfl, rfl⟩ ⟨_, rfl⟩
    rfl

/-- Writing a literal takes stamps and does nothing else. -/
theorem drawing_state (l : Literal) {m : Machine} (some : 0 < m.stamps) :
    let after := stateAfter (Literal.drawing (l.make []) m)
    after.store = m.store ∧ m.stamps ≤ after.stamps := by
  constructor
  · unfold Literal.drawing
    cases l.make [] m.stamps <;> rfl
  · -- What writing a literal does beside itself tells how the stamps go on.
    have ends : EndsAlike Eq Value.Alike .blank m (Literal.drawing (l.make []) m)
        (Literal.drawing (l.make []) m) :=
      Literal.make_alike (mirrors_blank some some rfl rfl) .nil l
    generalize Literal.drawing (l.make []) m = r at ends
    cases ends with
    | ok evolves _ _ => exact evolves.moreStamps
    | error evolves _ _ => exact evolves.moreStamps

/-! ## Sessions -/

theorem Mirrors.cleared {ρ : Renaming} {m n : Machine} (mirrors : Mirrors ρ m n) :
    Mirrors ρ (Session.clearOutput m) (Session.clearOutput n) :=
  ⟨mirrors.stamps, mirrors.envs, mirrors.frames, mirrors.transient, mirrors.native, mirrors.chain,
    mirrors.frame, rfl, rfl⟩

/-- What a caller does with an environment: it makes it a new global one, or evaluates in it an
    expression that it writes anew. -/
inductive Use where
  | make
  | evaluate (expr : Literal)

/-- A use of the environment of the given name, as a step of a session. -/
def Use.step (name : String) : Use → Step
  | .make => ⟨name, .global, none⟩
  | .evaluate expr => ⟨name, .evaluate expr none, none⟩

/-- What a caller can tell of a refusal: what it is reported as, the variable that it is about, and
    its message. -/
structure Refusal.Told where
  faultClass : Option FaultClass
  symbol : Option Symbol
  message : Option String

def Refusal.told : Refusal → Refusal.Told
  | .fault cause => ⟨cause.faultClass, cause.symbol?, cause.message?⟩
  | .unknown name => ⟨none, none, name⟩
  | .tooManyDigits count => ⟨some .value, none, some (tooManyDigitsText count)⟩
  | .notClosure => ⟨none, none, none⟩

/-- What a caller can tell of a report: all but the values that a fault is about. -/
structure Report.Told where
  reply : Except Refusal.Told Reply
  size : Option Nat
  notes : List (List String)
  records : List Record

def Report.told (r : Report) : Report.Told :=
  ⟨r.reply.mapError Refusal.told, r.size, r.notes, r.records⟩

namespace Session

/-- What evaluating for a session does to its machine. -/
def respond (policy : Policy) (kept : Kept) (expr : Literal) (env : EnvRef) :
    EStateM Refusal Machine Reply := fun m =>
  match Literal.drawing (expr.make kept) m with
  | .error why m => .error why.refusal m
  | .ok e m =>
    match evaluate policy e env m with
    | .error cause m => .error (.fault cause) m
    | .ok v m =>
      match v.display with
      | none => .error (.fault .unprintable) m
      | some text => .ok (.value v.typeName text) m

/-- What a use does to a session, given what it does to the machine. -/
def closing (step : Step) (s : Session) : EStateM.Result Refusal Machine Reply → Report × Session
  | .ok reply machine =>
    (conclude step (.ok reply) { s with machine }, { s with machine })
  | .error refusal machine =>
    (conclude step (.error refusal) { s with machine }, { s with machine })

theorem run_evaluate (s : Session) (name : String) (expr : Literal) :
    s.run ((Use.evaluate expr).step name) =
      closing ((Use.evaluate expr).step name) s
        (match Assoc.get? name s.envs with
        | none => .error (.unknown name) (clearOutput s.machine)
        | some env => respond s.policy s.kept expr env (clearOutput s.machine)) := by
  obtain ⟨machine, envs, kept, policy⟩ := s
  have read (s : Session) : (get : SessionM Session) s = .ok s s := rfl
  simp only [run, Use.step, execute, envNamed, makeValue, making, respond, Literal.drawing, perform,
    answer, keep, prepare, bind, EStateM.bind, read]
  cases found : Assoc.get? name envs with
  | none => rfl
  | some env =>
    simp only [pure, EStateM.pure, Option.getD_none]
    cases expr.make kept (clearOutput machine).stamps with
    | error why stamps => rfl
    | ok e stamps =>
      dsimp only
      cases evaluate policy e env { clearOutput machine with stamps } with
      | error cause m => rfl
      | ok v m =>
        dsimp only
        cases v.display <;> rfl

theorem run_make (s : Session) (name : String) :
    let made := (clearOutput s.machine).newGlobal
    let after := { s with machine := made.2, envs := Assoc.insert name made.1 s.envs }
    s.run (Use.make.step name) = (conclude (Use.make.step name) (.ok .done) after, after) :=
  rfl

section
variable {ρ : Renaming} {N : Region} {m n : Machine} {env env' : EnvRef}

/-- Evaluating for a session has the same answer in environments that correspond. -/
theorem respond_alike (policy : Policy) (expr : Literal) (mirrors : Mirrors ρ m n)
    (envs : ρ.envs env.index env'.index) :
    EndsAlike (fun r r' => r.told = r'.told) (fun _ => Eq) ρ n (respond policy [] expr env m)
      (respond policy [] expr env' n) := by
  have made : EndsAlike Eq Value.Alike ρ n (Literal.drawing (expr.make []) m)
      (Literal.drawing (expr.make []) n) :=
    Literal.make_alike mirrors .nil expr
  unfold respond
  generalize Literal.drawing (expr.make []) m = r at made
  generalize Literal.drawing (expr.make []) n = r' at made
  cases made with
  | error evolves mirrors same =>
    subst same
    exact .error evolves mirrors rfl
  | @ok _ e e' m1 n1 evolves mirrors alike =>
    have ends := evaluate_alike policy mirrors (alike.mono (.toCode _)) (evolves.included.envs envs)
    dsimp only
    generalize evaluate policy e env m1 = r at ends
    generalize evaluate policy e' env' n1 = r' at ends
    cases ends with
    | error evolves' mirrors same =>
      refine .error (evolves.trans evolves') mirrors ?_
      simp only [Refusal.told, same.faultClass, same.symbol?, same.message?]
    | @ok _ v w _ _ evolves' mirrors value =>
      simp only [Value.display, value.looks.render, value.looks.typeName]
      cases w.render .display with
      | none => exact .error (evolves.trans evolves') mirrors rfl
      | some text => exact .ok (evolves.trans evolves') mirrors rfl

/-- Evaluating for a session writes to the region of its environment. -/
theorem respond_state (policy : Policy) (expr : Literal) (some : 0 < m.stamps)
    (wf : m.store.WellFormed) (there : m.store.HasEnv env) (closed : N.Closed m.store)
    (inside : N.envs env) :
    let after := stateAfter (respond policy [] expr env m)
    WrittenIn N m.store after.store ∧ after.store.WellFormed ∧ m.stamps ≤ after.stamps := by
  obtain ⟨store, stamps⟩ := drawing_state expr some
  unfold respond
  cases made : Literal.drawing (expr.make []) m with
  | error why m1 =>
    rw [made] at store stamps
    simp only [stateAfter] at store stamps ⊢
    rw [store]
    exact ⟨.refl closed, wf, stamps⟩
  | ok e m1 =>
    rw [made] at store stamps
    simp only [stateAfter] at store stamps
    have confined := confined_evaluate policy e env m1
    obtain ⟨wf', onward⟩ := wellFormed_evaluate (store ▸ wf) (store ▸ there) policy e
    have state : WrittenIn N m.store (stateAfter (evaluate policy e env m1)).store ∧
        (stateAfter (evaluate policy e env m1)).store.WellFormed ∧
        m.stamps ≤ (stateAfter (evaluate policy e env m1)).stamps :=
      ⟨(store ▸ confined).writtenIn closed inside, wf', Nat.le_trans stamps onward.stamps⟩
    dsimp only
    cases evaluated : evaluate policy e env m1 with
    | error cause m2 =>
      rw [evaluated] at state
      exact state
    | ok v m2 =>
      rw [evaluated] at state
      dsimp only
      cases v.display with
      | none => exact state
      | some text => exact state

end

/-- A session in which only the environment of one name is used, beside one in which others are
    used as well: their own environments correspond, and the others lie in a region apart. -/
structure Beside (x : String) (ρ : Renaming) (N : Region) (s t : Session) : Prop where
  machines : Mirrors ρ (clearOutput s.machine) (clearOutput t.machine)
  wellFormed : t.machine.store.WellFormed
  spares : Spares ρ N t.machine.store
  own : Option.Rel (fun env env' => ρ.envs env.index env'.index) (Assoc.get? x s.envs)
    (Assoc.get? x t.envs)
  others : ∀ {y env}, y ≠ x → Assoc.get? y t.envs = some env → N.envs env
  kept : s.kept = [] ∧ t.kept = []
  policy : s.policy = t.policy

namespace Beside

variable {x y : String} {ρ : Renaming} {N : Region} {s t : Session}

theorem some_stamps (beside : Beside x ρ N s t) : 0 < (clearOutput t.machine).stamps :=
  Nat.lt_of_le_of_lt (Nat.zero_le _) (beside.machines.stamps.bounds beside.machines.transient).2

/-- What a caller is told at the end of a step. -/
theorem told_conclude {step : Step} (beside : Beside step.env ρ N s t)
    (mirrors : Mirrors ρ s.machine t.machine) {reply reply' : Except Refusal Reply}
    (replies : reply.mapError Refusal.told = reply'.mapError Refusal.told) :
    (conclude step reply s).told = (conclude step reply' t).told := by
  have sizes : (Assoc.get? step.env s.envs).map (fun env => (s.machine.store.chain env).length) =
      (Assoc.get? step.env t.envs).map (fun env => (t.machine.store.chain env).length) := by
    have own := beside.own
    generalize Assoc.get? step.env s.envs = env? at own ⊢
    generalize Assoc.get? step.env t.envs = env'? at own ⊢
    cases own with
    | none => rfl
    | some envs => exact congrArg some (mirrors.chain envs).length_eq
  simp only [conclude, Report.told, replies, sizes, beside.policy, mirrors.notes, mirrors.records]

/-- Corresponding environments may go by the name. -/
theorem name_own (beside : Beside x ρ N s t) {env env' : EnvRef}
    (envs : ρ.envs env.index env'.index) :
    Beside x ρ N { s with envs := Assoc.insert x env s.envs }
      { t with envs := Assoc.insert x env' t.envs } := by
  refine ⟨beside.machines, beside.wellFormed, beside.spares, ?_, ?_, beside.kept, beside.policy⟩
  · rw [Assoc.get?_insert, Assoc.get?_insert, if_pos rfl, if_pos rfl]
    exact .some envs
  · intro y env other found
    rw [Assoc.get?_insert, if_neg other] at found
    exact beside.others other found

/-- An environment in the region apart may go by another name. -/
theorem name_foreign (beside : Beside x ρ N s t) {env : EnvRef} (other : y ≠ x)
    (inside : N.envs env) : Beside x ρ N s { t with envs := Assoc.insert y env t.envs } := by
  refine ⟨beside.machines, beside.wellFormed, beside.spares, ?_, ?_, beside.kept, beside.policy⟩
  · rw [Assoc.get?_insert, if_neg other.symm]
    exact beside.own
  · intro z env' apart found
    rw [Assoc.get?_insert] at found
    split at found
    · cases found
      exact inside
    · exact beside.others apart found

/-- The state after something has been done with the environment itself. -/
theorem after_own (beside : Beside x ρ N s t) {σ : Renaming} {m n : Machine}
    (evolves : Evolves ρ (clearOutput t.machine) σ n) (mirrors : Mirrors σ m n)
    (written : WrittenIn ρ.image t.machine.store n.store) (wf : n.store.WellFormed) :
    Beside x σ N { s with machine := m } { t with machine := n } := by
  refine ⟨mirrors.cleared, wf, ?_, ?_, beside.others, beside.kept, beside.policy⟩
  · exact Spares.after_own (n := clearOutput t.machine) beside.spares written evolves
  · have own := beside.own
    generalize Assoc.get? x s.envs = env? at own
    generalize Assoc.get? x t.envs = env'? at own
    cases own with
    | none => exact .none
    | some envs => exact .some (evolves.included.envs envs)

/-- The state after something has been done with another environment. -/
theorem after_foreign (beside : Beside x ρ N s t) {n : Machine}
    (written : WrittenIn N t.machine.store n.store) (wf : n.store.WellFormed)
    (stamps : t.machine.stamps ≤ n.stamps) :
    Beside x ρ ((N.orNew t.machine.store).made n.store) s { t with machine := n } := by
  have mirrors : Mirrors ρ (clearOutput s.machine) (clearOutput n) :=
    beside.machines.after_foreign beside.spares written stamps rfl rfl
  refine ⟨mirrors, wf, ?_, beside.own, ?_, beside.kept, beside.policy⟩
  · exact Spares.after_foreign (n := clearOutput t.machine) beside.spares beside.machines written wf
  · intro y env other found
    have inside := beside.others other found
    exact ⟨.inl inside, Nat.lt_of_lt_of_le (beside.spares.envs inside).1 written.moreEnvs⟩

/-- Uses that end alike on the machines are told alike, and leave the sessions beside each other. -/
theorem closing_own (beside : Beside x ρ N s t) {step : Step} (name : step.env = x)
    {r r' : EStateM.Result Refusal Machine Reply}
    (ends : EndsAlike (fun r r' => r.told = r'.told) (fun _ => Eq) ρ (clearOutput t.machine) r r')
    (written : WrittenIn ρ.image t.machine.store (stateAfter r').store)
    (wf : (stateAfter r').store.WellFormed) :
    (closing step s r).1.told = (closing step t r').1.told ∧
      ∃ σ, Beside x σ N (closing step s r).2 (closing step t r').2 := by
  subst name
  cases ends with
  | ok evolves mirrors same =>
    have after := beside.after_own evolves mirrors written wf
    refine ⟨after.told_conclude mirrors ?_, _, after⟩
    rw [same]
  | error evolves mirrors same =>
    have after := beside.after_own evolves mirrors written wf
    refine ⟨after.told_conclude mirrors ?_, _, after⟩
    simp only [Except.mapError, same]

/-- A use of the environment itself is told as if no other had been used. -/
theorem own_use (beside : Beside x ρ N s t) (use : Use) :
    (s.run (use.step x)).1.told = (t.run (use.step x)).1.told ∧
      ∃ σ, Beside x σ N (s.run (use.step x)).2 (t.run (use.step x)).2 := by
  have closed := beside.machines.closed_image
  cases use with
  | make =>
    let σ := ρ.prolonged (clearOutput s.machine) (clearOutput t.machine) Builtin.stampCount 1 3
    have mirrors := beside.machines.newGlobal
    have fixes := fixes_newGlobal (clearOutput t.machine)
    have evolves : Evolves ρ (clearOutput t.machine) σ (clearOutput t.machine).newGlobal.2 :=
      evolves_prolonged ρ _ (Nat.le_add_right _ _) fixes.chains fixes.frames
    have wf := wellFormed_newGlobal (m := clearOutput t.machine) beside.wellFormed
    have after := (beside.after_own evolves mirrors (writtenIn_newGlobal closed) wf).name_own
      (prolonged_one.mpr (.inr ⟨rfl, rfl⟩))
    rw [run_make, run_make]
    exact ⟨after.told_conclude mirrors rfl, σ, after⟩
  | evaluate expr =>
    rw [run_evaluate, run_evaluate, beside.kept.1, beside.kept.2, beside.policy]
    have own := beside.own
    generalize Assoc.get? x s.envs = env? at own ⊢
    generalize Assoc.get? x t.envs = env'? at own ⊢
    cases own with
    | none =>
      exact beside.closing_own rfl (.error (.refl _ _) beside.machines rfl) (.refl closed)
        beside.wellFormed
    | some envs =>
      obtain ⟨written, wf, _⟩ := respond_state t.policy expr beside.some_stamps beside.wellFormed
        (beside.machines.hasEnv envs).2 closed ⟨_, envs⟩
      exact beside.closing_own rfl (respond_alike t.policy expr beside.machines envs) written wf

/-- A use of another environment changes nothing about the environment itself. -/
theorem foreign_use (beside : Beside x ρ N s t) (other : y ≠ x) (use : Use) :
    ∃ N', Beside x ρ N' s (t.run (use.step y)).2 := by
  have closed := beside.spares.closed
  cases use with
  | make =>
    have wf := wellFormed_newGlobal (m := clearOutput t.machine) beside.wellFormed
    have after := beside.after_foreign (writtenIn_newGlobal (m := clearOutput t.machine) closed) wf
      (Nat.le_add_right _ _)
    rw [run_make]
    exact ⟨_, after.name_foreign other ⟨.inr (Nat.lt_irrefl _), hasEnv_newGlobal _⟩⟩
  | evaluate expr =>
    rw [run_evaluate, beside.kept.2]
    cases found : Assoc.get? y t.envs with
    | none =>
      exact ⟨_, beside.after_foreign (n := clearOutput t.machine) (.refl closed) beside.wellFormed
        (Nat.le_refl _)⟩
    | some env =>
      have inside := beside.others other found
      obtain ⟨written, wf, stamps⟩ := respond_state t.policy expr beside.some_stamps
        beside.wellFormed (beside.spares.envs inside).1 closed inside
      have after := beside.after_foreign written wf stamps
      dsimp only
      generalize respond t.policy [] expr env (clearOutput t.machine) = r at after
      cases r with
      | ok reply machine => exact ⟨_, after⟩
      | error refusal machine => exact ⟨_, after⟩

end Beside

/-- A session before its first environment is made. -/
def unopened (policy : Policy) : Session := ⟨.empty, [], [], policy⟩

theorem start_eq (policy : Policy) :
    start policy = ((unopened policy).run (Use.make.step globalName)).2 := rfl

theorem beside_unopened (x : String) (policy : Policy) :
    Beside x .blank ⟨fun _ => False, fun _ => False⟩ (unopened policy) (unopened policy) :=
  { machines := mirrors_blank (Nat.succ_pos _) (Nat.succ_pos _) rfl rfl
    wellFormed := Reached.start.wellFormed.1
    spares := ⟨⟨fun _ => False.elim, fun _ => False.elim⟩, False.elim, False.elim⟩
    own := .none
    others := fun _ found => by cases found
    kept := ⟨rfl, rfl⟩
    policy := rfl }

/-- Some session has nothing but the environment of a given name in common with a new one. -/
theorem exists_beside_start (x : String) (policy : Policy) :
    ∃ s ρ N, Beside x ρ N s (start policy) := by
  rw [start_eq]
  have unopened := beside_unopened x policy
  by_cases name : globalName = x
  · subst name
    obtain ⟨_, σ, beside⟩ := unopened.own_use .make
    exact ⟨_, σ, _, beside⟩
  · obtain ⟨N, beside⟩ := unopened.foreign_use name .make
    exact ⟨_, _, N, beside⟩

/-- What the caller is told of the uses of one environment, while others may be used as well. -/
def heard (x : String) (s : Session) (uses : List (String × Use)) : List Report.Told :=
  let reports := s.runAll (uses.map fun use => use.2.step use.1)
  ((uses.zip reports).filter fun entry => entry.1.1 = x).map fun entry => entry.2.told

theorem heard_cons_own (x : String) (s : Session) (use : Use) (uses : List (String × Use)) :
    heard x s ((x, use) :: uses) =
      (s.run (use.step x)).1.told :: heard x (s.run (use.step x)).2 uses := by
  simp [heard, runAll]

theorem heard_cons_foreign {x y : String} (other : y ≠ x) (s : Session) (use : Use)
    (uses : List (String × Use)) :
    heard x s ((y, use) :: uses) = heard x (s.run (use.step y)).2 uses := by
  simp [heard, runAll, other]

/-- A session beside another is told the same as if nothing but its own environment were used. -/
theorem Beside.heard {x : String} {ρ : Renaming} {N : Region} {s t : Session}
    (beside : Beside x ρ N s t) (uses : List (String × Use)) :
    heard x t uses = heard x s (uses.filter fun use => use.1 = x) := by
  induction uses generalizing ρ N s t with
  | nil => rfl
  | cons use uses ih =>
    obtain ⟨y, use⟩ := use
    by_cases own : y = x
    · subst own
      obtain ⟨told, σ, beside⟩ := beside.own_use use
      rw [List.filter_cons_of_pos (by simp), heard_cons_own, heard_cons_own, told, ih beside]
    · obtain ⟨N', beside⟩ := beside.foreign_use own use
      rw [List.filter_cons_of_neg (by simpa using own), heard_cons_foreign own, ih beside]

/-- Global environments do not observe each other. Whatever is left out of the uses of other
    environments, in whatever order they come, the caller is told the same of each use of the
    environment: the type and the written form of the value, or what went wrong, and how many frames
    the environment has afterwards. -/
theorem heard_others_left_out (policy : Policy) (x : String) (uses : List (String × Use))
    (stays : String × Use → Bool) :
    heard x (start policy) (uses.filter fun use => use.1 = x || stays use) =
      heard x (start policy) uses := by
  obtain ⟨s, ρ, N, beside⟩ := exists_beside_start x policy
  rw [beside.heard, beside.heard, List.filter_filter]
  congr 2
  funext use
  by_cases own : use.1 = x <;> simp [own]

end Session

end FrameLisp
