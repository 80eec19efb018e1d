import FrameLisp.Proofs.Grammar
import FrameLisp.Proofs.Irrelevance
import FrameLisp.Proofs.Isolation
import FrameLisp.Proofs.Purity
import FrameLisp.Proofs.Room

/-!
Programs that define no functions. Where no closure can be reached, an expression without `lambda`
and without the function form of `define` applies primitives only, apart from the functions that
`let` and `letrec` stand for, and these are called once and then forgotten. So evaluation goes at
most two calls deeper for each level that the expression is nested (`eval_firstOrder`), and leaves
behind no closure that could be reached afterwards.
-/
namespace FrameLisp

/-! ## Expressions that define no functions -/

namespace Value

mutual

/-- How many lists and tuples are nested in each other. -/
def nesting : Value → Nat
  | .list _ items => nestingOfItems items + 1
  | .tuple _ items => nestingOfItems items + 1
  | _ => 0

/-- How many lists and tuples are nested in one of some items. -/
def nestingOfItems : List Value → Nat
  | [] => 0
  | item :: items => max item.nesting (nestingOfItems items)

end

/-- The word `lambda` is written nowhere in an expression, and no definition has a list in place of
    its name. -/
structure FirstOrder (e : Value) : Prop where
  lambda : ¬ (symbol Keyword.lambda.symbol).OccursIn e
  define : ∀ part : Value, part.OccursIn e → ∀ stamp header expr,
    part.items? ≠ some [.symbol Keyword.define.symbol, .list stamp header, expr]

variable {e item part : Value} {items : List Value}

theorem nesting_le_of_mem (member : item ∈ items) : item.nesting ≤ nestingOfItems items := by
  induction items with
  | nil => cases member
  | cons first rest ih =>
    rw [nestingOfItems]
    rcases List.mem_cons.mp member with rfl | member
    · exact Nat.le_max_left _ _
    · exact Nat.le_trans (ih member) (Nat.le_max_right _ _)

theorem nesting_lt_of_items? (shape : e.items? = some items) (member : item ∈ items) :
    item.nesting < e.nesting := by
  cases e with
  | list | tuple =>
    cases shape
    exact Nat.lt_succ_of_le (nesting_le_of_mem member)
  | _ => cases shape

theorem occursIn_items?_iff (shape : e.items? = some items) :
    part.OccursIn e ↔ part = e ∨ ∃ item ∈ items, part.OccursIn item := by
  cases e with
  | list =>
    cases shape
    constructor
    · exact occursIn_list
    · rintro (rfl | ⟨item, member, inside⟩)
      · exact .self
      · exact .list member inside
  | tuple =>
    cases shape
    constructor
    · rintro (_ | _ | ⟨member, inside⟩)
      · exact .inl rfl
      · exact .inr ⟨_, member, inside⟩
    · rintro (rfl | ⟨item, member, inside⟩)
      · exact .self
      · exact .tuple member inside
  | _ => cases shape

theorem firstOrder_items?_iff (shape : e.items? = some items) :
    e.FirstOrder ↔ (∀ item ∈ items, item.FirstOrder) ∧ ∀ stamp header expr,
      items ≠ [.symbol Keyword.define.symbol, .list stamp header, expr] := by
  have occurs (part : Value) : part.OccursIn e ↔ part = e ∨ ∃ item ∈ items, part.OccursIn item :=
    occursIn_items?_iff shape
  constructor
  · intro first
    refine ⟨fun item member => ⟨fun inside => ?_, fun part inside => ?_⟩, ?_⟩
    · exact first.lambda ((occurs _).mpr (.inr ⟨item, member, inside⟩))
    · exact first.define part ((occurs part).mpr (.inr ⟨item, member, inside⟩))
    · rintro stamp header expr rfl
      exact first.define e .self stamp header expr shape
  · rintro ⟨each, other⟩
    refine ⟨fun inside => ?_, fun part inside stamp header expr same => ?_⟩
    · rcases (occurs _).mp inside with rfl | ⟨item, member, inside⟩
      · cases shape
      · exact (each item member).lambda inside
    · rcases (occurs part).mp inside with rfl | ⟨item, member, inside⟩
      · exact other stamp header expr (Option.some.inj (shape.symm.trans same))
      · exact (each item member).define part inside stamp header expr same

@[simp]
theorem firstOrder_list {stamp : Stamp} :
    (list stamp items).FirstOrder ↔ (∀ item ∈ items, item.FirstOrder) ∧ ∀ stamp header expr,
      items ≠ [.symbol Keyword.define.symbol, .list stamp header, expr] :=
  firstOrder_items?_iff rfl

@[simp]
theorem firstOrder_symbol {x : Symbol} :
    (symbol x).FirstOrder ↔ x ≠ Keyword.lambda.symbol := by
  constructor
  · rintro first rfl
    exact first.lambda .self
  · intro other
    refine ⟨?_, ?_⟩
    · rintro ⟨⟩
      exact other rfl
    · rintro part ⟨⟩ stamp header expr ⟨⟩

@[simp]
theorem firstOrder_number (x : Number) : (number x).FirstOrder := by
  refine ⟨nofun, ?_⟩
  rintro part ⟨⟩ stamp header expr ⟨⟩

/-- An expression that defines no functions and is nested less than so many levels deep. -/
def FirstOrderBelow (levels : Nat) (e : Value) : Prop := e.FirstOrder ∧ e.nesting < levels

theorem FirstOrder.below (first : e.FirstOrder) (shape : e.items? = some items)
    (member : item ∈ items) : FirstOrderBelow e.nesting item :=
  ⟨((firstOrder_items?_iff shape).mp first).1 item member, nesting_lt_of_items? shape member⟩

end Value

namespace Phrase

/-- A phrase makes no function, and what is evaluated for it does not either. -/
structure FirstOrderBelow (levels : Nat) (p : Phrase) : Prop where
  lambda : ∀ params body, p ≠ .lambda params body
  parts : ∀ part ∈ p.parts, part.FirstOrderBelow levels

variable {e : Value} {p : Phrase}

theorem of_eq_ofItems {items : List Value} (shape : e.items? = some items) :
    of e = ofItems items := by
  cases e with
  | list | tuple =>
    cases shape
    rfl
  | _ => cases shape

private theorem below_bindings {form : String} {tail : List Value} {head : Value}
    {b : Form.Bindings} (first : e.FirstOrder) (shape : e.items? = some (head :: tail))
    (split : Form.splitBindings form tail = .ok b) :
    ∀ part ∈ b.body :: b.inits, part.FirstOrderBelow e.nesting := by
  obtain ⟨stamp, bindings, rfl, there⟩ := Form.mem_binding_of_splitBindings split
  have body : b.body.FirstOrderBelow e.nesting := first.below shape (by simp)
  have outer : (Value.list stamp bindings).FirstOrderBelow e.nesting :=
    first.below shape (by simp)
  refine List.forall_mem_cons.mpr ⟨body, fun init member => ?_⟩
  obtain ⟨stamp', items, binding, inside⟩ := there init (List.mem_append_right _ member)
  have middle := outer.1.below rfl binding
  have inner := middle.1.below rfl inside
  exact ⟨inner.1, inner.2.trans (middle.2.trans outer.2)⟩

private theorem firstOrderBelow_ofForm {k : Keyword} {tail : List Value} (first : e.FirstOrder)
    (shape : e.items? = some (.symbol k.symbol :: tail)) (phrase : ofForm k tail = .ok p) :
    p.FirstOrderBelow e.nesting := by
  have below := fun item (member : item ∈ tail) =>
    first.below shape (List.mem_cons_of_mem _ member)
  unfold ofForm at phrase
  split at phrase
  · have word := (first.below shape List.mem_cons_self).1
    exact absurd rfl (Value.firstOrder_symbol.mp word)
  · cases phrase
  · obtain ⟨b, split, rfl⟩ := map_eq_ok phrase
    exact ⟨by simp, below_bindings first shape split⟩
  · obtain ⟨b, split, rfl⟩ := map_eq_ok phrase
    exact ⟨by simp, below_bindings first shape split⟩
  · cases phrase
    exact ⟨by simp, below⟩
  · cases phrase
  · obtain ⟨⟨x, expr⟩, split, rfl⟩ := map_eq_ok phrase
    cases Form.splitDefine_eq_ok_iff.mp split with
    | name => exact ⟨by simp, List.forall_mem_singleton.mpr (below expr (by simp))⟩
    | function => exact absurd shape (first.define e .self _ _ _)

/-- What an expression that defines no functions says: nothing that is evaluated for it defines one,
    and all of it is nested less deeply. -/
theorem firstOrderBelow_of (phrase : of e = .ok p) (first : e.FirstOrder) :
    p.FirstOrderBelow e.nesting := by
  cases shape : e.items? with
  | none =>
    cases e with
    | list | tuple => cases shape
    | number | symbol =>
      cases phrase
      exact ⟨by simp, by simp [Phrase.parts]⟩
    | _ => cases phrase
  | some items =>
    rw [of_eq_ofItems shape] at phrase
    cases items with
    | nil => cases phrase
    | cons head tail =>
      rw [ofItems] at phrase
      split at phrase
      · rename_i k word
        obtain rfl := Eval.keyword?_eq_some word
        exact firstOrderBelow_ofForm first shape phrase
      · cases phrase
        exact ⟨by simp, fun part member => first.below shape member⟩

end Phrase

/-! ## Where no closure can be reached -/

/-- No closure occurs in a value. -/
def Value.Inert (v : Value) : Prop := v.MadeOf (Value.WhenClosure fun _ _ _ => False)

namespace Store

/-- A closure can be reached from an environment. -/
def ReachesClosure (s : Store) (root : EnvRef) : Prop :=
  ∃ f x v stamp params body env, s.ReachesFrame root f ∧ s.Binds f x v ∧
    (Value.closure stamp params body env).OccursIn v

/-- No closure occurs in what a frame binds names to. -/
def InertFrame (s : Store) (f : FrameRef) : Prop := ∀ x v, s.Binds f x v → v.Inert

/-- No closure occurs in what the frames of an environment bind names to. -/
def InertEnv (s : Store) (env : EnvRef) : Prop := ∀ f ∈ s.chain env, s.InertFrame f

variable {s t u : Store} {root env : EnvRef} {f : FrameRef} {x : Symbol} {v : Value}

theorem InertFrame.of_binds (inert : s.InertFrame f)
    (bound : ∀ x v, t.Binds f x v → s.Binds f x v ∨ v.Inert) : t.InertFrame f :=
  fun x v binds => (bound x v binds).elim (inert x v) id

theorem inertFrame_nextFrame (s : Store) : s.InertFrame s.nextFrame :=
  fun _ _ binds => absurd (hasFrame_of_binds binds) not_hasFrame_nextFrame

/-- No path leads from an environment without closures to another environment. -/
theorem InertEnv.eq_of_reaches (inert : s.InertEnv root) (reached : s.Reaches root env) :
    env = root := by
  induction reached with
  | root => rfl
  | captured _ member binds occurs ih =>
    subst ih
    exact (inert _ member _ _ binds _ occurs _ _ _ _ rfl).elim

theorem not_reachesClosure_iff : ¬ s.ReachesClosure root ↔ s.InertEnv root := by
  constructor
  · rintro none f member x v binds part occurs stamp params body env rfl
    exact none ⟨f, x, v, stamp, params, body, env, ⟨root, .root, member⟩, binds, occurs⟩
  · rintro inert ⟨f, x, v, stamp, params, body, inner, ⟨env, reached, member⟩, binds, occurs⟩
    rw [inert.eq_of_reaches reached] at member
    exact inert f member x v binds _ occurs _ _ _ _ rfl

/-- Frames in which no closure occurs stay so, and environments only get such frames. -/
structure KeepsInert (s t : Store) : Prop where
  frame : ∀ f, s.InertFrame f → t.InertFrame f
  chain : ∀ env f, f ∈ t.chain env → f ∈ s.chain env ∨ t.InertFrame f

namespace KeepsInert

theorem refl (s : Store) : KeepsInert s s := ⟨fun _ => id, fun _ _ => .inl⟩

theorem trans (first : KeepsInert s t) (second : KeepsInert t u) : KeepsInert s u where
  frame f inert := second.frame f (first.frame f inert)
  chain env f member := by
    rcases second.chain env f member with member | inert
    · exact (first.chain env f member).imp_right (second.frame f)
    · exact .inr inert

theorem inertEnv (kept : KeepsInert s t) (inert : s.InertEnv env) : t.InertEnv env := by
  intro f member
  rcases kept.chain env f member with member | inert'
  · exact kept.frame f (inert f member)
  · exact inert'

theorem of_binds (bound : ∀ f x v, t.Binds f x v → s.Binds f x v ∨ v.Inert)
    (chain : ∀ env f, f ∈ t.chain env → f ∈ s.chain env ∨ t.InertFrame f) : KeepsInert s t where
  frame f inert := inert.of_binds (bound f)
  chain := chain

theorem assign (inert : v.Inert) : KeepsInert s (s.assign f x v) := by
  refine .of_binds (fun g y w binds => ?_) fun env f => .inl
  rcases binds_assign binds with binds | ⟨_, _, rfl⟩
  · exact .inl binds
  · exact .inr inert

theorem push (inert : v.Inert) : KeepsInert s (s.push env (Frame.ofPairs [(x, v)])) := by
  have bound : ∀ f y w, (s.push env (Frame.ofPairs [(x, v)])).Binds f y w →
      s.Binds f y w ∨ w.Inert := by
    intro f y w binds
    rcases binds_push binds with binds | ⟨_, rfl⟩
    · exact .inl binds
    · exact .inr inert
  refine .of_binds bound fun other f member => ?_
  rcases mem_chain_push member with ⟨rfl, _⟩ | member
  · exact .inr ((inertFrame_nextFrame s).of_binds (bound _))
  · exact .inl member

theorem extend {fr : Frame} (inert : s.InertEnv env)
    (held : ∀ x v, fr.get? x = some v → v.Inert) :
    KeepsInert s (s.extend env fr).2 ∧ (s.extend env fr).2.InertEnv s.nextEnv := by
  have bound : ∀ f x v, (s.extend env fr).2.Binds f x v → s.Binds f x v ∨ v.Inert :=
    fun f x v binds => (binds_extend binds).imp_right fun new => held x v new.2
  have chain : ∀ f ∈ s.nextFrame :: s.chain env, (s.extend env fr).2.InertFrame f :=
    List.forall_mem_cons.mpr ⟨(inertFrame_nextFrame s).of_binds (bound _),
      fun f member => (inert f member).of_binds (bound f)⟩
  constructor
  · refine .of_binds bound fun other f member => ?_
    rw [chain_extend] at member
    split at member
    · exact .inr (chain f member)
    · exact .inl member
  · intro f member
    rw [chain_extend, if_pos rfl] at member
    exact chain f member

end KeepsInert

end Store

section
variable {env inner : EnvRef} {params : List Symbol} {args : List Value} {m m' : Machine}

theorem keepsInert_of_extend (inert : m.store.InertEnv env) (inertArgs : ∀ a ∈ args, a.Inert)
    (entry : Eval.extend env params args m = .ok inner m') :
    m.store.KeepsInert m'.store ∧ m'.store.InertEnv inner := by
  obtain ⟨fr, bound, rfl, rfl⟩ := Eval.extend_eq_ok entry
  exact Store.KeepsInert.extend inert fun x v found =>
    inertArgs v (Frame.mem_args_of_bind bound found)

theorem keepsInert_of_rebindHead (inertArgs : ∀ a ∈ args, a.Inert)
    (rebound : Eval.rebindHead env params args m = .ok () m') : m.store.KeepsInert m'.store := by
  refine .of_binds (fun f x v binds => ?_) fun other f member => ?_
  · exact (Eval.binds_of_rebindHead rebound binds).imp_right (inertArgs v)
  · obtain ⟨_, _, _, _, rfl⟩ := Eval.rebindHead_eq_ok rebound
    exact .inl member

end

/-! ## Evaluation -/

/-- How a computation ends that leaves no closure behind: what it yields is as it should be, and if
    it was given enough depth it does not stop for lack of it. -/
def Tame {α : Type} (m : Machine) (enough : Prop) (good : α → Prop) :
    EStateM.Result Halt Machine α → Prop :=
  Ends (fun a m' => m.store.KeepsInert m'.store ∧ good a)
    (fun h m' => m.store.KeepsInert m'.store ∧ (enough → h ≠ .exhausted))

namespace Tame

variable {α β : Type} {m m1 : Machine} {enough : Prop} {good : α → Prop}

theorem mono {less : Prop} {r : EStateM.Result Halt Machine α} (tame : Tame m less good r)
    (implies : enough → less) : Tame m enough good r :=
  Ends.mono tame (fun _ _ => id) fun _ _ stopped => ⟨stopped.1, stopped.2 ∘ implies⟩

theorem after {r : EStateM.Result Halt Machine α} (kept : m.store.KeepsInert m1.store)
    (tame : Tame m1 enough good r) : Tame m enough good r :=
  Ends.mono tame (fun _ _ done => ⟨kept.trans done.1, done.2⟩)
    fun _ _ stopped => ⟨kept.trans stopped.1, stopped.2⟩

theorem fault (c : Fault) :
    m.store.KeepsInert m.store ∧ (enough → Halt.fault c ≠ .exhausted) :=
  ⟨.refl m.store, fun _ => Halt.noConfusion⟩

theorem bind {x : EvalM β} {next : β → EvalM α} {fair : β → Prop} (first : Tame m enough fair (x m))
    (second : ∀ b m1, x m = .ok b m1 → m.store.KeepsInert m1.store → fair b →
      Tame m1 enough good (next b m1)) : Tame m enough good ((x >>= next) m) :=
  Ends.bind first fun b m1 run done => (second b m1 run done.1 done.2).after done.1

end Tame

section
variable {room depth : Nat} {env : EnvRef} {m : Machine} {b : Form.Bindings} {levels : Nat}

/-- Calls of a depth leave no closure behind, and are deep enough for expressions that are nested
    less than half as deep. -/
def TamesFirstOrder (room depth : Nat) : Prop :=
  ∀ e env m, e.FirstOrder → m.store.InertEnv env →
    Tame m (2 * e.nesting + 1 ≤ depth) Value.Inert (eval room depth e env m)

theorem tame_items (tames : TamesFirstOrder room depth) (items : List Value)
    (below : ∀ e ∈ items, e.FirstOrderBelow levels) (inert : m.store.InertEnv env) :
    Tame m (2 * levels ≤ depth + 1) (∀ v ∈ ·, v.Inert) (items.mapM (eval room depth · env) m) := by
  induction items generalizing m with
  | nil => exact ⟨.refl m.store, by simp⟩
  | cons e rest ih =>
    obtain ⟨⟨first, nested⟩, later⟩ := List.forall_mem_cons.mp below
    rw [List.mapM_cons]
    refine ((tames e env m first inert).mono (by omega)).bind fun v m1 _ kept here => ?_
    refine (ih later (kept.inertEnv inert)).bind fun vs m2 _ _ there => ?_
    exact ⟨.refl m2.store, List.forall_mem_cons.mpr ⟨here, there⟩⟩

/-- A primitive makes no closure. -/
theorem tame_apply {fn : Value} {args : List Value} (inertFn : fn.Inert)
    (inertArgs : ∀ a ∈ args, a.Inert) (ev : Evaluator) (enough : Prop) :
    Tame m enough Value.Inert (Eval.apply room ev fn args m) := by
  cases fn with
  | primitive stamp op =>
    have ends := op.call_ends room args m
    have faults := op.call_faultsOnly room args m
    rw [Eval.apply]
    cases run : op.call room args m with
    | ok v m1 =>
      rw [run] at ends
      obtain ⟨quiet, made⟩ := ends
      refine ⟨quiet.store ▸ .refl _, fun part inside => ?_⟩
      rcases made part inside with made | ⟨a, member, inside⟩
      · exact Value.whenClosure_of_isMade made
      · exact inertArgs a member part inside
    | error h m1 =>
      rw [run] at ends
      obtain ⟨c, rfl, _⟩ := faults h m1 run
      exact ⟨ends.1.store ▸ .refl _, fun _ => Halt.noConfusion⟩
  | closure stamp params body captured => exact (inertFn _ .self _ _ _ _ rfl).elim
  | _ => exact .fault _

theorem tame_extend {params : List Symbol} {args : List Value} (inert : m.store.InertEnv env)
    (inertArgs : ∀ a ∈ args, a.Inert) (enough : Prop) :
    Tame m enough (fun _ => True) (Eval.extend env params args m) :=
  Eval.extend_ends (fun _ _ entry => ⟨(keepsInert_of_extend inert inertArgs entry).1, trivial⟩)
    (Tame.fault _)

theorem tame_rebindHead {params : List Symbol} {args : List Value}
    (inertArgs : ∀ a ∈ args, a.Inert) (enough : Prop) :
    Tame m enough (fun _ => True) (Eval.rebindHead env params args m) :=
  Eval.rebindHead_ends (fun _ rebound => ⟨keepsInert_of_rebindHead inertArgs rebound, trivial⟩)
    fun c _ => Tame.fault c

theorem tame_name {x : Symbol} {enough : Prop} (inert : m.store.InertEnv env) :
    Tame m enough Value.Inert ((Phrase.name x).run room (eval room depth) env m) := by
  have opened : (Phrase.name x).run room (eval room depth) env m =
      Eval.ofExcept (m.store.lookup env x) m := rfl
  rw [opened]
  unfold Store.lookup
  split
  · exact Tame.fault _
  · exact Tame.fault _
  · rename_i v _ found
    obtain ⟨f, member, binds⟩ := Store.binding?_eq_some found
    exact ⟨.refl m.store, inert f member x v binds⟩

/-- The application that a form stands for makes one closure, calls it and forgets it. -/
theorem tame_bindings (tames : ∀ less < depth, TamesFirstOrder room less)
    (distinct : b.params.Nodup) (below : ∀ e ∈ b.body :: b.inits, e.FirstOrderBelow levels)
    (inert : m.store.InertEnv env) :
    Tame m (2 * levels ≤ depth) Value.Inert (eval room depth (Form.application b) env m) := by
  obtain ⟨⟨first, nested⟩, inits⟩ := List.forall_mem_cons.mp below
  -- Without two more calls the function is not even made.
  match depth, tames with
  | 0, _ => exact ⟨.refl m.store, fun _ => by omega⟩
  | 1, _ => exact ⟨.refl m.store, fun _ => by omega⟩
  | depth + 2, tames =>
    replace tames := tames (depth + 1) (by omega)
    rw [eval_of_phrase (Phrase.of_application b), Phrase.run, bind_ok (eval_functionOf distinct _)]
    have stamped : m.store.KeepsInert m.nextStamp.2.store := .refl m.store
    refine Tame.after stamped ?_
    refine Tame.bind (tame_items tames b.inits inits inert) ?_
    intro values m1 _ kept inertValues
    replace inert := kept.inertEnv inert
    refine Tame.bind (tame_extend inert inertValues _) ?_
    intro inner m2 entry _ _
    have inside := (keepsInert_of_extend inert inertValues entry).2
    exact (tames b.body inner m2 first inside).mono (by omega)

theorem tame_letRec (tames : ∀ less ≤ depth, TamesFirstOrder room less)
    (distinct : b.params.Nodup) (below : ∀ e ∈ b.body :: b.inits, e.FirstOrderBelow levels)
    (inert : m.store.InertEnv env) :
    Tame m (2 * levels ≤ depth) Value.Inert
      ((Phrase.letRec b).run room (eval room depth) env m) := by
  have placeholders : ∀ v ∈ b.params.map fun _ => Value.unassigned, v.Inert := by
    intro v member part inside
    obtain ⟨_, _, rfl⟩ := List.mem_map.mp member
    exact Value.whenClosure_unassigned inside
  have inits := (List.forall_mem_cons.mp below).2
  refine Tame.bind (tame_extend inert placeholders _) ?_
  intro inner m1 entry _ _
  have inside := (keepsInert_of_extend inert placeholders entry).2
  refine Tame.bind ((tame_items (tames depth (Nat.le_refl _)) b.inits inits inside).mono
    (by omega)) ?_
  intro values m2 _ kept inertValues
  replace inside := kept.inertEnv inside
  refine Tame.bind (tame_rebindHead inertValues _) ?_
  intro _ m3 rebound kept _
  replace inside := kept.inertEnv inside
  exact tame_bindings (fun less shallower => tames less (Nat.le_of_lt shallower)) distinct below
    (m := m3.addRecord (.letrecBound b.params)) inside

theorem tame_define (tames : TamesFirstOrder room depth) {expr : Value} (x : Symbol)
    (below : expr.FirstOrderBelow levels) (inert : m.store.InertEnv env) :
    Tame m (2 * levels ≤ depth) Value.Inert
      ((Phrase.define x expr).run room (eval room depth) env m) := by
  obtain ⟨first, nested⟩ := below
  have tame : Tame m (2 * levels ≤ depth) Value.Inert (eval room depth expr env m) :=
    (tames expr env m first inert).mono (by omega)
  have unit : Value.unit.Inert := by
    intro part inside
    cases inside
    exact Value.whenClosure_unit
  rw [run_define]
  cases run : eval room depth expr env m with
  | error h m1 =>
    rw [run] at tame
    exact tame
  | ok v m1 =>
    rw [run] at tame
    obtain ⟨kept, inertValue⟩ := tame
    cases m.store.find? env x with
    | some f => exact ⟨kept.trans (.assign inertValue), unit⟩
    | none => exact ⟨kept.trans (.push inertValue), unit⟩

/-- An expression that defines no functions leaves no closure behind, and needs at most two calls
    for each level of nesting, and one. -/
theorem tamesFirstOrder (room depth : Nat) : TamesFirstOrder room depth := by
  induction depth using Nat.strongRecOn with
  | ind depth tames =>
    intro e env m first inert
    match depth, tames with
    | 0, _ => exact ⟨.refl m.store, fun _ => by omega⟩
    | depth + 1, tames =>
      have nested := tames depth (by omega)
      cases phrase : Phrase.of e with
      | error c =>
        rw [eval_of_refused phrase]
        exact .fault c
      | ok p =>
        rw [eval_of_phrase phrase]
        obtain ⟨lambda, below⟩ := Phrase.firstOrderBelow_of phrase first
        have shaped := Phrase.shaped_of phrase
        have evaluated (part : Value) (member : part ∈ p.parts) {m1 : Machine}
            (kept : m.store.KeepsInert m1.store) :
            Tame m1 (2 * e.nesting + 1 ≤ depth + 1) Value.Inert (eval room depth part env m1) := by
          obtain ⟨first, less⟩ := below part member
          exact (nested part env m1 first (kept.inertEnv inert)).mono (by omega)
        cases p with
        | number x =>
          refine ⟨.refl m.store, fun part inside => ?_⟩
          rw [Value.occursIn_number inside]
          exact Value.whenClosure_of_isMade rfl
        | name x => exact tame_name inert
        | application head args =>
          have later := (List.forall_mem_cons.mp below).2
          refine Tame.bind (evaluated _ List.mem_cons_self (.refl m.store)) ?_
          intro fn m1 _ kept inertFn
          refine Tame.bind ((tame_items nested args later (kept.inertEnv inert)).mono (by omega)) ?_
          intro values m2 _ _ inertValues
          exact tame_apply inertFn inertValues _ _
        | lambda params body => exact absurd rfl (lambda params body)
        | letPlain b =>
          exact (tame_bindings (fun less shallower => tames less (by omega)) shaped.1 below
            inert).mono (by omega)
        | letRec b =>
          exact (tame_letRec (fun less shallower => tames less (by omega)) shaped.1 below
            inert).mono (by omega)
        | branch condition consequent alternative =>
          refine Tame.bind (evaluated _ List.mem_cons_self (.refl m.store)) ?_
          intro v m1 _ kept _
          cases v.isTrue with
          | true => exact evaluated consequent (by simp [Phrase.parts]) kept
          | false => exact evaluated alternative (by simp [Phrase.parts]) kept
        | define x expr =>
          exact (tame_define nested x (below expr (by simp [Phrase.parts])) inert).mono (by omega)

end

/-- Only functions that a program defines can take up any amount of depth: where no closure can be
    reached, an expression that defines no functions and is nested `n` levels deep is evaluated with
    `2 * n + 1` calls nested in each other. It does not stop for lack of depth, and ends in the same
    way with more. Given enough room, no value is nested too deeply for what is done with it, or for
    the fault that shows it. However the evaluation ends, with whatever depth, no closure can be
    reached afterwards, nor does one occur in its value. -/
theorem eval_firstOrder {e : Value} {env : EnvRef} {m : Machine} (first : e.FirstOrder)
    (unreached : ¬ m.store.ReachesClosure env) :
    (∀ room depth, 2 * e.nesting + 1 ≤ depth →
      (∀ m', eval room depth e env m ≠ .error .exhausted m') ∧
        eval room depth e env m = eval room (2 * e.nesting + 1) e env m) ∧
    (∃ room, ∀ room' depth c m', room ≤ room' → 2 * e.nesting + 1 ≤ depth →
      eval room' depth e env m = .error (.fault c) m' → c.settle room' ≠ .tooDeep) ∧
    ∀ room depth, ¬ (stateAfter (eval room depth e env m)).store.ReachesClosure env ∧
      ∀ v m', eval room depth e env m = .ok v m' → v.Inert := by
  have inert := Store.not_reachesClosure_iff.mp unreached
  have tame (room depth : Nat) := tamesFirstOrder room depth e env m first inert
  have enough (room depth : Nat) (deep : 2 * e.nesting + 1 ≤ depth) (m' : Machine) :
      eval room depth e env m ≠ .error .exhausted m' := by
    intro stopped
    have tame := tame room depth
    rw [stopped] at tame
    exact tame.2 deep rfl
  have same (room depth : Nat) (deep : 2 * e.nesting + 1 ≤ depth) :
      eval room depth e env m = eval room (2 * e.nesting + 1) e env m := by
    rcases eval_agrees (Nat.le_refl room) deep e env m with
      same | ⟨h, m', stopped, rfl | ⟨other, _⟩⟩
    · exact same
    · exact absurd stopped (enough room _ (Nat.le_refl _) m')
    · exact absurd rfl other
  refine ⟨fun room depth deep => ⟨enough room depth deep, same room depth deep⟩, ?_, ?_⟩
  · obtain ⟨room, enoughRoom⟩ := exists_enough_room (2 * e.nesting + 1) e env m
    refine ⟨room, fun room' depth c m' more deep stopped => ?_⟩
    exact enoughRoom room' c m' more ((same room' depth deep).symm.trans stopped)
  · intro room depth
    have kept : m.store.KeepsInert (stateAfter (eval room depth e env m)).store :=
      Ends.state (Ends.mono (tame room depth) (fun _ _ => And.left) fun _ _ => And.left)
    refine ⟨Store.not_reachesClosure_iff.mpr (kept.inertEnv inert), fun v m' done => ?_⟩
    have tame := tame room depth
    rw [done] at tame
    exact tame.2

/-- `(letrec ((x (list 1 2))) (let ((y (cons 0 x))) (if (null? y) y (define z (list x y)))))`. -/
def nestedBindings : Value :=
  .list ⟨1⟩ [.symbol ⟨"letrec"⟩,
    .list ⟨2⟩ [.list ⟨3⟩ [.symbol ⟨"x"⟩,
      .list ⟨4⟩ [.symbol ⟨"list"⟩, .number (.int 1), .number (.int 2)]]],
    .list ⟨5⟩ [.symbol ⟨"let"⟩,
      .list ⟨6⟩ [.list ⟨7⟩ [.symbol ⟨"y"⟩,
        .list ⟨8⟩ [.symbol ⟨"cons"⟩, .number (.int 0), .symbol ⟨"x"⟩]]],
      .list ⟨9⟩ [.symbol ⟨"if"⟩, .list ⟨10⟩ [.symbol ⟨"null?"⟩, .symbol ⟨"y"⟩], .symbol ⟨"y"⟩,
        .list ⟨11⟩ [.symbol ⟨"define"⟩, .symbol ⟨"z"⟩,
          .list ⟨12⟩ [.symbol ⟨"list"⟩, .symbol ⟨"x"⟩, .symbol ⟨"y"⟩]]]]]

/-- The functions that the forms stand for are called and forgotten, and the five levels of nesting
    take no more than eleven calls. -/
theorem eval_firstOrder_nestedBindings :
    let env := Machine.empty.newGlobal.1
    let m := Machine.empty.newGlobal.2
    nestedBindings.FirstOrder ∧ ¬ m.store.ReachesClosure env ∧ nestedBindings.nesting = 5 ∧
      ∃ v m', eval 20 11 nestedBindings env m = .ok v m' ∧ ¬ m'.store.ReachesClosure env ∧
        ∀ depth, 11 ≤ depth → eval 20 depth nestedBindings env m = .ok v m' := by
  intro env m
  have first : nestedBindings.FirstOrder := by
    simp [nestedBindings, Keyword.symbol, Keyword.name]
  have unreached : ¬ m.store.ReachesClosure env := by
    refine Store.not_reachesClosure_iff.mpr fun f _ x v binds part inside => ?_
    exact whenClosure_newGlobal (Nat.not_lt_zero _) binds inside
  have nesting : nestedBindings.nesting = 5 := by decide +kernel
  have done : yields (eval 20 11 nestedBindings Machine.empty.newGlobal.1
      Machine.empty.newGlobal.2) = true := by decide +kernel
  obtain ⟨v, m', done⟩ := exists_of_yields done
  obtain ⟨enough, _, after⟩ := eval_firstOrder first unreached
  rw [nesting] at enough
  refine ⟨first, unreached, nesting, v, m', done, ?_, fun depth deep => ?_⟩
  · have after := (after 20 11).1
    rw [done] at after
    exact after
  · exact ((enough 20 depth deep).2).trans done

end FrameLisp
