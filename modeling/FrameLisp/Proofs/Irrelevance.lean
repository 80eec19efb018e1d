import FrameLisp.Proofs.Level
import FrameLisp.Proofs.WellFormed
import Mathlib.Data.Set.Defs

/-!
Names that nothing refers to. `Value.Refers` says which names stand in an expression as variables:
the keywords of special forms, parameters and the names that a form gives values to do not. Take two
states that differ only in what some names are bound to. An expression that refers to none of these
names does the same in both, as long as no closure that it can come across refers to them either,
and leaves states that again differ in nothing else (`eval_ignores`). The names may be those of the
keywords: a keyword at the head of a form is never looked up.
-/
namespace FrameLisp

/-! ## References -/

/-- The expressions that a phrase is made of. -/
def Phrase.parts : Phrase → List Value
  | .number _ => []
  | .name _ => []
  | .application head args => head :: args
  | .lambda _ body => [body]
  | .letPlain b => b.body :: b.inits
  | .letRec b => b.body :: b.inits
  | .branch condition consequent alternative => [condition, consequent, alternative]
  | .define _ expr => [expr]

namespace Value

/-- A name stands in an expression as a variable, whether or not the expression binds it. A
    malformed form says nothing, and so refers to nothing. -/
inductive Refers (x : Symbol) : Value → Prop
  | name {e : Value} (phrase : Phrase.of e = .ok (.name x)) : Refers x e
  | part {e part : Value} {p : Phrase} (phrase : Phrase.of e = .ok p) (member : part ∈ p.parts)
      (inside : Refers x part) : Refers x e

/-- An expression refers to none of some names. -/
def Disregards (hidden : Set Symbol) (e : Value) : Prop := ∀ x ∈ hidden, ¬ e.Refers x

/-- The bodies of the closures that occur in a value refer to none of some names. -/
def ClosuresDisregard (hidden : Set Symbol) (v : Value) : Prop :=
  ∀ part : Value, part.OccursIn v → part.WhenClosure fun _ body _ => body.Disregards hidden

variable {hidden : Set Symbol} {e v : Value} {p : Phrase}

theorem Disregards.parts (disregards : e.Disregards hidden) (phrase : Phrase.of e = .ok p) :
    ∀ part ∈ p.parts, part.Disregards hidden :=
  fun _ member x inside refers => disregards x inside (.part phrase member refers)

theorem disregards_of_parts (phrase : Phrase.of e = .ok p) (other : ∀ x ∈ hidden, p ≠ .name x)
    (each : ∀ part ∈ p.parts, part.Disregards hidden) : e.Disregards hidden := by
  rintro x inside (same | ⟨same, member, refers⟩)
  · cases phrase.symm.trans same
    exact other x inside rfl
  · cases phrase.symm.trans same
    exact each _ member x inside refers

/-- A form that binds names and the application that it stands for refer to the same names. -/
theorem disregards_application {b : Form.Bindings} (distinct : b.params.Nodup)
    (each : ∀ part ∈ b.body :: b.inits, part.Disregards hidden) :
    (Form.application b).Disregards hidden := by
  obtain ⟨body, inits⟩ := List.forall_mem_cons.mp each
  have function : (Form.functionOf (b.params.map symbol) b.body).Disregards hidden :=
    disregards_of_parts (Phrase.of_functionOf distinct b.body) (by simp)
      (List.forall_mem_singleton.mpr body)
  exact disregards_of_parts (Phrase.of_application b) (by simp)
    (List.forall_mem_cons.mpr ⟨function, inits⟩)

theorem closuresDisregard_madeFrom {args : List Value} (made : MadeFrom args v)
    (each : ∀ a ∈ args, a.ClosuresDisregard hidden) : v.ClosuresDisregard hidden := by
  intro part inside
  rcases made part inside with made | ⟨a, member, inside⟩
  · exact whenClosure_of_isMade made
  · exact each a member part inside

end Value

/-! ## States that agree but for some names -/

/-- Frames that bind the same names in the same order, and all but some of them to the same
    values. -/
structure Frame.AgreeExcept (hidden : Set Symbol) (f g : Frame) : Prop where
  names : f.names = g.names
  values : ∀ y ∉ hidden, f.get? y = g.get? y

/-- Stores that are the same but for what some names are bound to. -/
structure Store.AgreeExcept (hidden : Set Symbol) (s t : Store) : Prop where
  chains : s.chains = t.chains
  frames : s.frames.size = t.frames.size
  frame : ∀ f, (s.frame f).AgreeExcept hidden (t.frame f)

/-- States that are the same but for what some names are bound to. -/
structure Machine.AgreeExcept (hidden : Set Symbol) (m n : Machine) : Prop where
  store : m.store.AgreeExcept hidden n.store
  stamps : m.stamps = n.stamps
  calls : m.calls = n.calls
  notes : m.notes = n.notes
  records : m.records = n.records

/-- The closures that the other names are bound to refer to none of some names. -/
def Store.Disregards (hidden : Set Symbol) (s : Store) : Prop :=
  ∀ f y v, y ∉ hidden → s.Binds f y v → v.ClosuresDisregard hidden

section
variable {hidden : Set Symbol}

namespace Frame.AgreeExcept

variable {f g : Frame}

theorem refl (f : Frame) : f.AgreeExcept hidden f := ⟨rfl, fun _ _ => rfl⟩

theorem binds (agree : f.AgreeExcept hidden g) (x : Symbol) : f.binds x = g.binds x := by
  rw [Bool.eq_iff_iff, binds_iff, binds_iff, agree.names]

theorem insert (agree : f.AgreeExcept hidden g) (x : Symbol) (v : Value) :
    (f.insert x v).AgreeExcept hidden (g.insert x v) := by
  refine ⟨?_, fun y seen => ?_⟩
  · rw [names_insert, names_insert, agree.names]
  · rw [get?_insert, get?_insert, agree.values y seen]

theorem insertAll (agree : f.AgreeExcept hidden g) (pairs : List (Symbol × Value)) :
    (f.insertAll pairs).AgreeExcept hidden (g.insertAll pairs) := by
  induction pairs generalizing f g with
  | nil => exact agree
  | cons pair rest ih => exact ih (agree.insert pair.1 pair.2)

end Frame.AgreeExcept

namespace Store.AgreeExcept

variable {s t : Store} {x : Symbol}

theorem refl (s : Store) : s.AgreeExcept hidden s := ⟨rfl, rfl, fun f => .refl (s.frame f)⟩

theorem chain (agree : s.AgreeExcept hidden t) (env : EnvRef) : s.chain env = t.chain env := by
  rw [Store.chain, Store.chain, agree.chains]

theorem find? (agree : s.AgreeExcept hidden t) (env : EnvRef) (x : Symbol) :
    s.find? env x = t.find? env x := by
  have same : (fun f => (s.frame f).binds x) = fun f => (t.frame f).binds x :=
    funext fun f => (agree.frame f).binds x
  rw [Store.find?, Store.find?, agree.chain, same]

theorem lookup (agree : s.AgreeExcept hidden t) (env : EnvRef) (seen : x ∉ hidden) :
    s.lookup env x = t.lookup env x := by
  have same : (fun f => (s.frame f).get? x) = fun f => (t.frame f).get? x :=
    funext fun f => (agree.frame f).values x seen
  rw [Store.lookup, Store.lookup, binding?, binding?, agree.chain, same]

theorem headFor (agree : s.AgreeExcept hidden t) (env : EnvRef) (params : List Symbol)
    (args : List Value) : s.headFor env params args = t.headFor env params args := by
  rw [Store.headFor, Store.headFor, agree.chain]

theorem nextFrame (agree : s.AgreeExcept hidden t) : s.nextFrame = t.nextFrame :=
  congrArg FrameRef.mk agree.frames

theorem nextEnv (agree : s.AgreeExcept hidden t) : s.nextEnv = t.nextEnv :=
  congrArg (EnvRef.mk ·.size) agree.chains

theorem extend (agree : s.AgreeExcept hidden t) (env : EnvRef) (fr : Frame) :
    (s.extend env fr).2.AgreeExcept hidden (t.extend env fr).2 := by
  refine ⟨?_, ?_, fun f => ?_⟩
  · show s.chains.push (s.nextFrame :: s.chain env) = t.chains.push (t.nextFrame :: t.chain env)
    rw [agree.chains, agree.nextFrame, agree.chain]
  · rw [frames_size_extend, frames_size_extend, agree.frames]
  · rw [frame_extend, frame_extend, agree.nextFrame]
    split
    · exact .refl fr
    · exact agree.frame f

theorem push (agree : s.AgreeExcept hidden t) (env : EnvRef) {fr fr' : Frame}
    (same : fr.AgreeExcept hidden fr') :
    (s.push env fr).AgreeExcept hidden (t.push env fr') := by
  refine ⟨?_, ?_, fun f => ?_⟩
  · show s.chains.modify env.index (s.nextFrame :: ·) = t.chains.modify env.index (t.nextFrame :: ·)
    rw [agree.chains, agree.nextFrame]
  · rw [frames_size_push, frames_size_push, agree.frames]
  · rw [frame_push, frame_push, agree.nextFrame]
    split
    · exact same
    · exact agree.frame f

theorem modifyFrame (agree : s.AgreeExcept hidden t) (f : FrameRef) {change : Frame → Frame}
    (kept : ∀ {fr fr' : Frame}, fr.AgreeExcept hidden fr' →
      (change fr).AgreeExcept hidden (change fr')) :
    (s.modifyFrame f change).AgreeExcept hidden (t.modifyFrame f change) := by
  refine ⟨agree.chains, ?_, fun g => ?_⟩
  · rw [frames_size_modifyFrame, frames_size_modifyFrame, agree.frames]
  · by_cases same : g = f
    · subst same
      by_cases there : s.HasFrame g
      · have there' : t.HasFrame g := by rwa [HasFrame, ← agree.frames]
        rw [frame_modifyFrame_self there, frame_modifyFrame_self there']
        exact kept (agree.frame g)
      · have absent' : ¬ t.HasFrame g := by rwa [HasFrame, ← agree.frames]
        rw [frame_modifyFrame_absent there, frame_modifyFrame_absent absent']
        exact agree.frame g
    · rw [frame_modifyFrame_other same, frame_modifyFrame_other same]
      exact agree.frame g

end Store.AgreeExcept

namespace Store.Disregards

variable {s t : Store}

theorem of_binds (closures : s.Disregards hidden)
    (bound : ∀ f y v, t.Binds f y v → s.Binds f y v ∨ v.ClosuresDisregard hidden) :
    t.Disregards hidden := by
  intro f y v seen binds
  rcases bound f y v binds with binds | disregards
  · exact closures f y v seen binds
  · exact disregards

end Store.Disregards

end

/-! ## Computations that leave the store aside -/

/-- An outcome with another store in its state. -/
def inStore {α : Type} (s : Store) :
    EStateM.Result Halt Machine α → EStateM.Result Halt Machine α
  | .ok a m => .ok a { m with store := s }
  | .error h m => .error h { m with store := s }

/-- A computation neither looks at the store nor writes to it. -/
def StoreBlind {α : Type} (x : EvalM α) : Prop :=
  ∀ m s, x { m with store := s } = inStore s (x m)

namespace StoreBlind

variable {α β : Type}

theorem bind {x : EvalM β} {next : β → EvalM α} (first : StoreBlind x)
    (second : ∀ b, StoreBlind (next b)) : StoreBlind (x >>= next) := by
  intro m s
  simp only [Bind.bind, EStateM.bind, first m s]
  cases x m with
  | ok b m' => exact second b m' s
  | error h m' => rfl

theorem pure (a : α) : StoreBlind (Pure.pure a : EvalM α) := fun _ _ => rfl

theorem fail (c : Fault) : StoreBlind (Eval.fail c : EvalM α) := fun _ _ => rfl

theorem ofExcept (r : Except Fault α) : StoreBlind (Eval.ofExcept r) := by
  cases r with
  | ok a => exact pure a
  | error c => exact fail c

theorem freshStamp : StoreBlind Eval.freshStamp := fun _ _ => rfl

theorem newList (items : List Value) : StoreBlind (Eval.newList items) :=
  freshStamp.bind fun _ => pure _

end StoreBlind

theorem Unary.storeBlind_call (f : Unary) (a : Value) : StoreBlind (f.call a) := by
  cases f with
  | isNull => exact .pure _
  | car => exact .ofExcept _
  | cdr => exact (StoreBlind.ofExcept _).bind fun parts => .newList parts.2

theorem Binary.storeBlind_compute (f : Binary) (op : Number.Operation) (a b : Value) :
    StoreBlind (compute f op a b) := by
  refine (StoreBlind.ofExcept _).bind ?_
  rintro ⟨x, y⟩
  dsimp only
  cases op.apply x y with
  | number z => exact .pure _
  | undefined => exact StoreBlind.freshStamp.bind fun _ => .pure _
  | tooLarge => exact .fail _

theorem Binary.storeBlind_call (room : Nat) (f : Binary) (a b : Value) :
    StoreBlind (f.call room a b) := by
  cases f with
  | cons => cases b with
    | list stamp items => exact .newList _
    | _ => exact .fail _
  | add | sub | mul => exact storeBlind_compute _ _ a b
  | gt | ge | lt | le => exact .ofExcept _
  | equal =>
    simp only [call, decideEqual]
    cases Value.equal? .apart room a b with
    | some answer => exact .pure _
    | none => exact .fail _

theorem Op.storeBlind_noteCall (room : Nat) (args : List Value) :
    StoreBlind (noteCall room args) := by
  have count : StoreBlind (modifyGet Machine.countCall) := fun _ _ => rfl
  have add (texts : List String) : StoreBlind (modify (·.addNote texts)) := fun _ _ => rfl
  exact count.bind fun _ => (StoreBlind.ofExcept _).bind fun texts =>
    (add texts).bind fun _ => .pure _

theorem Op.storeBlind_call (room : Nat) (op : Op) (args : List Value) :
    StoreBlind (op.call room args) := by
  unfold call
  split
  · exact Unary.storeBlind_call _ _
  · exact Binary.storeBlind_call room _ _ _
  · exact .newList _
  · split
    · exact storeBlind_noteCall room _
    · exact .fail _
  · exact .fail _

/-! ## Two runs in step -/

/-- Two computations end in the same way, in states that agree but for some names. -/
inductive InStep {α : Type} (hidden : Set Symbol) (P : α → Prop) :
    EStateM.Result Halt Machine α → EStateM.Result Halt Machine α → Prop
  | ok {a : α} {m n : Machine} (agree : m.AgreeExcept hidden n)
      (closures : m.store.Disregards hidden) (holds : P a) : InStep hidden P (.ok a m) (.ok a n)
  | error {h : Halt} {m n : Machine} (agree : m.AgreeExcept hidden n) :
      InStep hidden P (.error h m) (.error h n)

section
variable {hidden : Set Symbol} {m n : Machine}

namespace InStep

variable {α β : Type} {P : α → Prop} {Q : β → Prop}

theorem bind {x x' : EvalM β} {next next' : β → EvalM α} (first : InStep hidden Q (x m) (x' n))
    (second : ∀ b m' n', m'.AgreeExcept hidden n' → m'.store.Disregards hidden → Q b →
      InStep hidden P (next b m') (next' b n')) :
    InStep hidden P ((x >>= next) m) ((x' >>= next') n) := by
  simp only [Bind.bind, EStateM.bind]
  generalize x m = r at first
  generalize x' n = r' at first
  cases first with
  | ok agree closures holds => exact second _ _ _ agree closures holds
  | error agree => exact error agree

theorem get {next next' : Machine → EvalM α} (second : InStep hidden P (next m m) (next' n n)) :
    InStep hidden P ((MonadState.get >>= next) m) ((MonadState.get >>= next') n) :=
  second

/-- The same check on both sides, and then computations in step. -/
theorem check {r : Except Fault β} {next : β → EvalM α} (agree : m.AgreeExcept hidden n)
    (second : ∀ b, r = .ok b → InStep hidden P (next b m) (next b n)) :
    InStep hidden P ((Eval.ofExcept r >>= next) m) ((Eval.ofExcept r >>= next) n) := by
  cases r with
  | ok b => exact second b rfl
  | error c => exact error agree

end InStep

theorem Machine.AgreeExcept.eq_inStore (agree : m.AgreeExcept hidden n) :
    n = { m with store := n.store } := by
  obtain ⟨s, stamps, calls, notes, records⟩ := m
  obtain ⟨t, stamps', calls', notes', records'⟩ := n
  obtain ⟨_, rfl, rfl, rfl, rfl⟩ := agree
  rfl

/-- A change of both stores that keeps them in agreement. -/
theorem Machine.AgreeExcept.mapStore (agree : m.AgreeExcept hidden n)
    {change change' : Store → Store}
    (changed : (change m.store).AgreeExcept hidden (change' n.store)) :
    (m.mapStore change).AgreeExcept hidden (n.mapStore change') :=
  ⟨changed, agree.stamps, agree.calls, agree.notes, agree.records⟩

variable (agree : m.AgreeExcept hidden n) (closures : m.store.Disregards hidden)
include agree closures

theorem call_inStep (room : Nat) (op : Op) {args : List Value}
    (each : ∀ a ∈ args, a.ClosuresDisregard hidden) :
    InStep hidden (Value.ClosuresDisregard hidden) (op.call room args m)
      (op.call room args n) := by
  have quiet {m' : Machine} (quiet : Quiet m m') :
      m'.AgreeExcept hidden { m' with store := n.store } :=
    ⟨quiet.store ▸ agree.store, rfl, rfl, rfl, rfl⟩
  have ends := op.call_ends room args m
  rw [agree.eq_inStore, op.storeBlind_call room args m n.store]
  cases run : op.call room args m with
  | ok v m' =>
    rw [run] at ends
    exact .ok (quiet ends.1) (ends.1.store ▸ closures)
      (Value.closuresDisregard_madeFrom ends.2 each)
  | error h m' =>
    rw [run] at ends
    exact .error (quiet ends.1)

theorem extend_inStep (env : EnvRef) (params : List Symbol) {args : List Value}
    (each : ∀ a ∈ args, a.ClosuresDisregard hidden) :
    InStep hidden (fun _ => True) (Eval.extend env params args m)
      (Eval.extend env params args n) := by
  refine .check agree fun fr bound => ?_
  have same : n.store.nextEnv = m.store.nextEnv := agree.store.nextEnv.symm
  show InStep hidden _ (.ok m.store.nextEnv (m.mapStore fun s => (s.extend env fr).2))
    (.ok n.store.nextEnv (n.mapStore fun s => (s.extend env fr).2))
  rw [same]
  refine .ok (agree.mapStore (agree.store.extend env fr)) (closures.of_binds ?_) trivial
  intro f y v binds
  rcases Store.binds_extend binds with binds | ⟨_, found⟩
  · exact .inl binds
  · exact .inr (each v (Frame.mem_args_of_bind bound found))

theorem rebindHead_inStep (env : EnvRef) (params : List Symbol) {args : List Value}
    (each : ∀ a ∈ args, a.ClosuresDisregard hidden) :
    InStep hidden (fun _ => True) (Eval.rebindHead env params args m)
      (Eval.rebindHead env params args n) := by
  rw [Eval.rebindHead_eq, Eval.rebindHead_eq, ← agree.store.headFor]
  refine .check agree fun head _ => ?_
  refine .ok (agree.mapStore (agree.store.modifyFrame head fun kept => kept.insertAll _))
    (closures.of_binds ?_) trivial
  intro f y v binds
  rcases Store.binds_assignAll binds with ⟨binds, _⟩ | ⟨_, member⟩
  · exact .inl binds
  · exact .inr (each v (List.of_mem_zip member).2)

theorem report_inStep (r : Record) :
    InStep hidden (fun _ => True) (Eval.report r m) (Eval.report r n) :=
  .ok ⟨agree.store, agree.stamps, agree.calls, agree.notes, congrArg (·.push r) agree.records⟩
    closures trivial

theorem assign_inStep (f : FrameRef) (x : Symbol) {v : Value}
    (disregards : v.ClosuresDisregard hidden) :
    InStep hidden (fun _ => True) ((modify (·.mapStore (·.assign f x v)) : EvalM Unit) m)
      ((modify (·.mapStore (·.assign f x v)) : EvalM Unit) n) := by
  refine .ok (agree.mapStore (agree.store.modifyFrame f fun kept => kept.insert x v))
    (closures.of_binds ?_) trivial
  intro g y w binds
  rcases Store.binds_assign binds with binds | ⟨_, _, rfl⟩
  · exact .inl binds
  · exact .inr disregards

theorem push_inStep (env : EnvRef) (x : Symbol) {v : Value}
    (disregards : v.ClosuresDisregard hidden) :
    InStep hidden (fun _ => True)
      ((modify (·.mapStore (·.push env (Frame.ofPairs [(x, v)]))) : EvalM Unit) m)
      ((modify (·.mapStore (·.push env (Frame.ofPairs [(x, v)]))) : EvalM Unit) n) := by
  refine .ok (agree.mapStore (agree.store.push env (.refl _))) (closures.of_binds ?_) trivial
  intro g y w binds
  rcases Store.binds_push binds with binds | ⟨_, rfl⟩
  · exact .inl binds
  · exact .inr disregards

theorem variable_inStep (env : EnvRef) {x : Symbol} (seen : x ∉ hidden) :
    InStep hidden (Value.ClosuresDisregard hidden) (Eval.variableValue x env m)
      (Eval.variableValue x env n) := by
  refine .get ?_
  rw [← agree.store.lookup env seen, Store.lookup]
  split
  · exact .error agree
  · exact .error agree
  · rename_i v _ found
    obtain ⟨f, _, binds⟩ := Store.binding?_eq_some found
    exact .ok agree closures (closures f x v seen binds)

theorem newClosure_inStep (params : List Symbol) (env : EnvRef) {body : Value}
    (disregards : body.Disregards hidden) :
    InStep hidden (Value.ClosuresDisregard hidden) (Eval.newClosure params body env m)
      (Eval.newClosure params body env n) := by
  show InStep hidden _
    (.ok (Value.closure ⟨m.stamps⟩ params body env) { m with stamps := m.stamps + 1 })
    (.ok (Value.closure ⟨n.stamps⟩ params body env) { n with stamps := n.stamps + 1 })
  rw [← agree.stamps]
  refine .ok ⟨agree.store, rfl, agree.calls, agree.notes, agree.records⟩ closures ?_
  rintro part ⟨⟩ stamp params' body' env' ⟨⟩
  exact disregards

end

/-! ## Evaluation -/

/-- An evaluator does the same from states that agree but for some names, if neither the expression
    nor a closure refers to one of them. -/
def KeepsInStep (hidden : Set Symbol) (ev : Evaluator) : Prop :=
  ∀ (e : Value) (env : EnvRef) (m n : Machine), m.AgreeExcept hidden n →
    m.store.Disregards hidden → e.Disregards hidden →
    InStep hidden (Value.ClosuresDisregard hidden) (ev e env m) (ev e env n)

namespace KeepsInStep

section
variable {room : Nat} {hidden : Set Symbol} {ev : Evaluator} {m n : Machine}
  (keeps : KeepsInStep hidden ev) (agree : m.AgreeExcept hidden n)
  (closures : m.store.Disregards hidden) (env : EnvRef)
include keeps agree closures

theorem mapM {items : List Value} (each : ∀ e ∈ items, e.Disregards hidden) :
    InStep hidden (fun vs => ∀ v ∈ vs, v.ClosuresDisregard hidden) (items.mapM (ev · env) m)
      (items.mapM (ev · env) n) := by
  induction items generalizing m n with
  | nil => exact .ok agree closures (by simp)
  | cons e rest ih =>
    rw [List.mapM_cons]
    obtain ⟨first, others⟩ := List.forall_mem_cons.mp each
    refine (keeps e env m n agree closures first).bind fun v m1 n1 agree1 closures1 here => ?_
    refine (ih agree1 closures1 others).bind fun vs m2 n2 agree2 closures2 later => ?_
    exact .ok agree2 closures2 (List.forall_mem_cons.mpr ⟨here, later⟩)

theorem apply {fn : Value} {args : List Value} (function : fn.ClosuresDisregard hidden)
    (each : ∀ a ∈ args, a.ClosuresDisregard hidden) :
    InStep hidden (Value.ClosuresDisregard hidden) (Eval.apply room ev fn args m)
      (Eval.apply room ev fn args n) := by
  cases fn with
  | primitive stamp op => exact call_inStep agree closures room op each
  | closure stamp params body captured =>
    have disregards : body.Disregards hidden := function _ .self _ _ _ _ rfl
    exact (extend_inStep agree closures captured params each).bind
      fun inner m1 n1 agree1 closures1 _ => keeps body inner m1 n1 agree1 closures1 disregards
  | _ => exact .error agree

theorem letRec {b : Form.Bindings} (distinct : b.params.Nodup)
    (parts : ∀ part ∈ b.body :: b.inits, part.Disregards hidden) :
    InStep hidden (Value.ClosuresDisregard hidden) ((Phrase.letRec b).run room ev env m)
      ((Phrase.letRec b).run room ev env n) := by
  have placeholders : ∀ a ∈ b.params.map fun _ => Value.unassigned, a.ClosuresDisregard hidden := by
    intro a member part inside
    obtain ⟨_, _, rfl⟩ := List.mem_map.mp member
    exact Value.whenClosure_unassigned inside
  refine (extend_inStep agree closures env b.params placeholders).bind
    fun inner m1 n1 agree1 closures1 _ => ?_
  refine (keeps.mapM agree1 closures1 inner (List.forall_mem_cons.mp parts).2).bind
    fun values m2 n2 agree2 closures2 each => ?_
  refine (rebindHead_inStep agree2 closures2 inner b.params each).bind
    fun _ m3 n3 agree3 closures3 _ => ?_
  refine (report_inStep agree3 closures3 _).bind fun _ m4 n4 agree4 closures4 _ => ?_
  exact keeps _ inner m4 n4 agree4 closures4 (Value.disregards_application distinct parts)

/-- Both runs find the name bound in the same frame, or in none. -/
theorem define (x : Symbol) {expr : Value} (disregards : expr.Disregards hidden) :
    InStep hidden (Value.ClosuresDisregard hidden) ((Phrase.define x expr).run room ev env m)
      ((Phrase.define x expr).run room ev env n) := by
  refine .get ?_
  rw [← agree.store.find?]
  refine (keeps expr env m n agree closures disregards).bind fun v m1 n1 agree1 closures1 made => ?_
  have unit : Value.unit.ClosuresDisregard hidden := by
    rintro part ⟨⟩
    exact Value.whenClosure_unit
  cases m.store.find? env x with
  | some f =>
    refine (report_inStep agree1 closures1 _).bind fun _ m2 n2 agree2 closures2 _ => ?_
    exact (assign_inStep agree2 closures2 f x made).bind
      fun _ _ _ agree3 closures3 _ => .ok agree3 closures3 unit
  | none =>
    refine (report_inStep agree1 closures1 _).bind fun _ m2 n2 agree2 closures2 _ => ?_
    exact (push_inStep agree2 closures2 env x made).bind
      fun _ _ _ agree3 closures3 _ => .ok agree3 closures3 unit

theorem run {e : Value} {p : Phrase} (phrase : Phrase.of e = .ok p)
    (disregards : e.Disregards hidden) :
    InStep hidden (Value.ClosuresDisregard hidden) (p.run room ev env m)
      (p.run room ev env n) := by
  have parts := disregards.parts phrase
  have shaped := Phrase.shaped_of phrase
  cases p with
  | number x =>
    refine .ok agree closures ?_
    rintro part ⟨⟩
    exact Value.whenClosure_of_isMade rfl
  | name x =>
    have seen : x ∉ hidden := fun inside => disregards x inside (.name phrase)
    exact variable_inStep agree closures env seen
  | application head args =>
    obtain ⟨function, operands⟩ := List.forall_mem_cons.mp parts
    refine (keeps head env m n agree closures function).bind
      fun fn m1 n1 agree1 closures1 here => ?_
    refine (keeps.mapM agree1 closures1 env operands).bind
      fun values m2 n2 agree2 closures2 each => ?_
    exact keeps.apply agree2 closures2 here each
  | lambda params body =>
    exact newClosure_inStep agree closures params env (parts body List.mem_cons_self)
  | letPlain b =>
    exact keeps _ env m n agree closures (Value.disregards_application shaped.1 parts)
  | letRec b => exact keeps.letRec agree closures env shaped.1 parts
  | branch condition consequent alternative =>
    simp only [Phrase.parts, List.forall_mem_cons] at parts
    refine (keeps condition env m n agree closures parts.1).bind
      fun v m1 n1 agree1 closures1 _ => ?_
    cases v.isTrue with
    | true => exact keeps consequent env m1 n1 agree1 closures1 parts.2.1
    | false => exact keeps alternative env m1 n1 agree1 closures1 parts.2.2.1
  | define x expr => exact keeps.define agree closures env x (parts expr List.mem_cons_self)

end

protected theorem eval (room depth : Nat) (hidden : Set Symbol) :
    KeepsInStep hidden (eval room depth) := by
  induction depth with
  | zero => exact fun _ _ _ _ agree _ _ => .error agree
  | succ depth keeps =>
    intro e env m n agree closures disregards
    rw [eval_succ_eq_run]
    exact .check agree fun p phrase => keeps.run agree closures env phrase disregards

end KeepsInStep

/-- Bindings of names that nothing refers to make no difference to an evaluation: it ends in the
    same way, and in states that differ in such bindings alone, so with the same notes and reports.
    Nothing is asked of closures that only such names are bound to: they are never called. -/
theorem eval_ignores (room depth : Nat) (hidden : Set Symbol) {e : Value} (env : EnvRef)
    {m n : Machine} (agree : m.AgreeExcept hidden n) (disregards : e.Disregards hidden)
    (closures : m.store.Disregards hidden) :
    outcome (eval room depth e env m) = outcome (eval room depth e env n) ∧
      (stateAfter (eval room depth e env m)).AgreeExcept hidden
        (stateAfter (eval room depth e env n)) := by
  have step := KeepsInStep.eval room depth hidden e env m n agree closures disregards
  generalize eval room depth e env m = r at step
  generalize eval room depth e env n = r' at step
  cases step with
  | ok agree => exact ⟨rfl, agree⟩
  | error agree => exact ⟨rfl, agree⟩

/-! ## Keywords as names -/

/-- The names of the keywords. -/
def Keyword.names : Set Symbol := {x | ∃ k : Keyword, k.symbol = x}

/-- A new global environment in front of which `if` is bound to a number. -/
def branchBoundTo (x : Number) : Machine :=
  let (env, m) := Machine.empty.newGlobal
  m.mapStore (·.push env (Frame.ofPairs [(Keyword.branch.symbol, .number x)]))

/-- `(if (define if true) (lambda (if) nil) false)`. -/
def branchAsName : Value :=
  .list ⟨1⟩ [.symbol ⟨"if"⟩, .list ⟨2⟩ [.symbol ⟨"define"⟩, .symbol ⟨"if"⟩, .symbol ⟨"true"⟩],
    .list ⟨3⟩ [.symbol ⟨"lambda"⟩, .list ⟨4⟩ [.symbol ⟨"if"⟩], .symbol ⟨"nil"⟩],
    .symbol ⟨"false"⟩]

theorem Value.disregards_symbol {x : Symbol} (plain : Keyword.ofSymbol? x = none) :
    (Value.symbol x).Disregards Keyword.names := by
  refine disregards_of_parts rfl ?_ (by simp [Phrase.parts])
  rintro _ ⟨k, rfl⟩ same
  cases same
  rw [Keyword.ofSymbol?_symbol] at plain
  cases plain

theorem branchAsName_disregards : branchAsName.Disregards Keyword.names := by
  have define : (Value.list ⟨2⟩ [.symbol ⟨"define"⟩, .symbol ⟨"if"⟩, .symbol ⟨"true"⟩]).Disregards
      Keyword.names :=
    Value.disregards_of_parts rfl (by simp)
      (List.forall_mem_singleton.mpr (Value.disregards_symbol rfl))
  have function : (Value.list ⟨3⟩ [.symbol ⟨"lambda"⟩, .list ⟨4⟩ [.symbol ⟨"if"⟩],
      .symbol ⟨"nil"⟩]).Disregards Keyword.names :=
    Value.disregards_of_parts rfl (by simp)
      (List.forall_mem_singleton.mpr (Value.disregards_symbol rfl))
  refine Value.disregards_of_parts rfl (by simp) ?_
  simpa only [Phrase.parts, List.forall_mem_cons] using
    ⟨define, function, Value.disregards_symbol rfl, by simp⟩

/-- A program that uses `if` as a keyword, a parameter and the name in a definition does the same
    whatever `if` is bound to. -/
theorem eval_ignores_branchAsName :
    let m := branchBoundTo (.int 1)
    let n := branchBoundTo (.int 2)
    branchAsName.Disregards Keyword.names ∧ m.store.Disregards Keyword.names ∧
      m.AgreeExcept Keyword.names n ∧ m.store.lookup ⟨0⟩ ⟨"if"⟩ = .ok (.number (.int 1)) ∧
      n.store.lookup ⟨0⟩ ⟨"if"⟩ = .ok (.number (.int 2)) ∧
      (∃ v m', eval 20 20 branchAsName ⟨0⟩ m = .ok v m') ∧
      outcome (eval 20 20 branchAsName ⟨0⟩ m) = outcome (eval 20 20 branchAsName ⟨0⟩ n) := by
  intro m n
  have agree : m.AgreeExcept Keyword.names n := by
    refine ⟨(Store.AgreeExcept.refl _).push _ ⟨rfl, fun y other => ?_⟩, rfl, rfl, rfl, rfl⟩
    have other : y ≠ Keyword.branch.symbol := fun same => other ⟨_, same.symm⟩
    show (Frame.empty.insert _ _).get? y = (Frame.empty.insert _ _).get? y
    rw [Frame.get?_insert, Frame.get?_insert, if_neg other, if_neg other]
  have closures : m.store.Disregards Keyword.names := by
    intro f y v _ binds part inside
    rcases Store.binds_push binds with binds | ⟨_, rfl⟩
    · exact whenClosure_newGlobal (Nat.not_lt_zero _) binds inside
    · cases inside
      exact Value.whenClosure_of_isMade rfl
  have ignored := eval_ignores 20 20 Keyword.names ⟨0⟩ agree branchAsName_disregards closures
  exact ⟨branchAsName_disregards, closures, agree, rfl, rfl, ⟨_, _, rfl⟩, ignored.1⟩

end FrameLisp
